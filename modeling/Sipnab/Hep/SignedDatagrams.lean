import Sipnab.Hep.HmacToken
import Sipnab.Hep.RoundTrip

/-!
# Which datagrams are accepted

The chunk walk finds the token in one place whatever the token is, so the bytes around it are
tagged as they stand. A nonce stays remembered as long as its token can come in the window.
-/

namespace Sipnab

open List

/-! ## The place of the token -/

namespace HepWalk

section Span

variable {fuel offset : ℕ} {rest data : List UInt8} {w w₁ : HepWalk} {chunk : HepChunk}

theorem walkChunks_cases (h : walkChunks (fuel + 1) offset rest w = .ok w₁) :
    (rest.length < chunkHeaderLen ∧ w₁ = w) ∨
      ∃ head tail w₂, rest = head ++ tail ∧ chunkHeaderLen ≤ head.length ∧
        ofBeBytes ((head.drop 4).take 2) = head.length ∧
        w.readChunk offset (ofBeBytes ((head.drop 2).take 2)) (head.drop chunkHeaderLen) = .ok w₂ ∧
        walkChunks fuel (offset + head.length) tail w₂ = .ok w₁ := by
  by_cases hshort : rest.length < chunkHeaderLen
  · rw [walkChunks, if_pos hshort] at h
    exact .inl ⟨hshort, (Except.ok.inj h).symm⟩
  · right
    have hwalk := h
    rw [walkChunks, if_neg hshort] at h
    dsimp only at h
    split_ifs at h with hbelow hover
    have htake : (rest.take (ofBeBytes ((rest.drop 4).take 2))).length =
        ofBeBytes ((rest.drop 4).take 2) := by
      rw [length_take]
      omega
    have hsix : chunkHeaderLen = 6 := rfl
    obtain ⟨head, tail, rfl, hhead⟩ : ∃ head tail, rest = head ++ tail ∧
        head.length = ofBeBytes ((rest.drop 4).take 2) :=
      ⟨_, _, (take_append_drop _ rest).symm, htake⟩
    have hfour : ((head ++ tail).drop 4).take 2 = (head.drop 4).take 2 := by
      rw [drop_append_of_le_length (by omega),
        take_append_of_le_length (by rw [length_drop]; omega)]
    rw [hfour] at hhead hbelow
    rw [walkChunks_append (by omega) hhead.symm] at hwalk
    cases hread : w.readChunk offset (ofBeBytes ((head.drop 2).take 2))
        (head.drop chunkHeaderLen) with
    | error e =>
      rw [hread] at hwalk
      cases hwalk
    | ok w₂ =>
      rw [hread] at hwalk
      exact ⟨head, tail, w₂, rfl, by omega, hhead.symm, hread, hwalk⟩

theorem authSpan_of_readValue (hne : chunk ≠ .authKey)
    (h : w.readValue offset chunk data = .ok w₁) : w₁.authSpan = w.authSpan := by
  cases chunk <;> simp only [readValue, readSrcAddr, readDstAddr] at h <;> first
    | exact absurd rfl hne
    | (obtain rfl := Except.ok.inj h; rfl)
    | (split_ifs at h; obtain rfl := Except.ok.inj h; rfl)
    | (cases data with
        | nil => cases h
        | cons b bs => obtain rfl := Except.ok.inj h; rfl)

theorem readValue_authKey (hne : chunk ≠ .authKey) (key : Option (List UInt8)) :
    HepWalk.readValue { w with authKey := key } offset chunk data =
      (w.readValue offset chunk data).map (fun w => { w with authKey := key }) := by
  cases chunk <;> simp only [readValue, readSrcAddr, readDstAddr] <;> first
    | exact absurd rfl hne
    | rfl
    | (split_ifs <;> rfl)
    | (cases data <;> rfl)

theorem seenTypes_of_readValue (h : w.readValue offset chunk data = .ok w₁) :
    w₁.seenTypes = w.seenTypes := by
  have hsame : w.readValue offset chunk data =
      (w.readValue offset chunk data).map (fun w' => { w' with seenTypes := w.seenTypes }) :=
    readValue_seenTypes w.seenTypes
  rw [h, Except.map] at hsame
  have hwalk := congrArg HepWalk.seenTypes (Except.ok.inj hsame)
  exact hwalk

def AuthSeen (w : HepWalk) : Prop := w.seenTypes &&& HepChunk.authKey.knownBit ≠ 0

variable {chunkType : ℕ}

theorem readChunk_of_ne (hne : HepChunk.ofCode chunkType ≠ some .authKey)
    (h : w.readChunk offset chunkType data = .ok w₁) :
    w₁.authSpan = w.authSpan ∧ (w.AuthSeen → w₁.AuthSeen) ∧
      ∀ key, HepWalk.readChunk { w with authKey := key } offset chunkType data =
        .ok { w₁ with authKey := key } := by
  simp only [readChunk] at h ⊢
  cases hcode : HepChunk.ofCode chunkType with
  | none =>
    rw [hcode] at h
    obtain rfl := Except.ok.inj h
    exact ⟨rfl, id, fun _ => rfl⟩
  | some chunk =>
    have hchunk : chunk ≠ .authKey := fun heq => hne (heq ▸ hcode)
    rw [hcode] at h
    dsimp only at h ⊢
    split_ifs at h ⊢ with hnew
    have hspan := authSpan_of_readValue hchunk h
    refine ⟨hspan, ?_, ?_⟩
    · intro hseen hzero
      apply hseen
      rw [seenTypes_of_readValue h] at hzero
      exact (mark_and hchunk w.seenTypes).symm.trans hzero
    · intro key
      have hkey := (readValue_authKey hchunk key).trans (congrArg (Except.map _) h)
      exact hkey

theorem readChunk_of_authSeen (hseen : w.AuthSeen)
    (h : w.readChunk offset chunkType data = .ok w₁) :
    HepChunk.ofCode chunkType ≠ some .authKey := by
  intro hcode
  simp only [readChunk, hcode] at h
  rw [if_neg hseen] at h
  cases h

theorem walkChunks_of_authSeen (hseen : w.AuthSeen)
    (h : walkChunks fuel offset rest w = .ok w₁) :
    w₁.authSpan = w.authSpan ∧
      ∀ key, walkChunks fuel offset rest { w with authKey := key } =
        .ok { w₁ with authKey := key } := by
  induction fuel generalizing offset rest w with
  | zero =>
    obtain rfl := Except.ok.inj h
    exact ⟨rfl, fun _ => rfl⟩
  | succ fuel ih =>
    rcases walkChunks_cases h with ⟨hshort, rfl⟩ |
      ⟨head, tail, w₂, rfl, hhead, hlength, hread, hwalk⟩
    · refine ⟨rfl, fun key => ?_⟩
      rw [walkChunks, if_pos hshort]
    · have hne := readChunk_of_authSeen hseen hread
      obtain ⟨hspan, hkept, hkey⟩ := readChunk_of_ne hne hread
      obtain ⟨hspan', hkey'⟩ := ih (hkept hseen) hwalk
      refine ⟨hspan'.trans hspan, fun key => ?_⟩
      rw [walkChunks_append hhead hlength, hkey key]
      exact hkey' key

theorem header_of_take {head other : List UInt8} {i : ℕ} (hi : i + 2 ≤ chunkHeaderLen)
    (hhead : chunkHeaderLen ≤ head.length) :
    ((head.take chunkHeaderLen ++ other).drop i).take 2 = (head.drop i).take 2 := by
  have htake : (head.take chunkHeaderLen).length = chunkHeaderLen := by
    rw [length_take]
    omega
  rw [drop_append_of_le_length (by omega),
    take_append_of_le_length (by rw [length_drop]; omega), drop_take, take_take,
    Nat.min_eq_left (by omega)]

theorem readChunk_authKey (hcode : HepChunk.ofCode chunkType = some .authKey)
    (h : w.readChunk offset chunkType data = .ok w₁) :
    w₁.AuthSeen ∧
      w₁.authSpan = some (offset + chunkHeaderLen, offset + chunkHeaderLen + data.length) ∧
      ∀ other : List UInt8, other.length = data.length →
        w.readChunk offset chunkType other = .ok { w₁ with authKey := some other } := by
  simp only [readChunk, hcode] at h ⊢
  split_ifs at h with hnew
  obtain rfl := Except.ok.inj h
  refine ⟨?_, rfl, ?_⟩
  · intro hzero
    rw [BitVec.and_comm, BitVec.and_or_distrib_left, BitVec.and_self, BitVec.and_comm,
      hnew] at hzero
    exact absurd hzero (by decide)
  · intro other hother
    rw [if_pos hnew, ← hother]
    rfl

theorem exists_authSpan (hspan : w.authSpan = none) {start stop : ℕ}
    (h : walkChunks fuel offset rest w = .ok w₁) (hfound : w₁.authSpan = some (start, stop)) :
    ∃ before token after, rest = before ++ (token ++ after) ∧ start = offset + before.length ∧
      stop = start + token.length ∧
      ∀ other : List UInt8, other.length = token.length → ∃ w₂,
        walkChunks fuel offset (before ++ (other ++ after)) w = .ok w₂ ∧
          w₂.authSpan = w₁.authSpan ∧ w₂.srcAddr = w₁.srcAddr ∧ w₂.dstAddr = w₁.dstAddr := by
  induction fuel generalizing offset rest w with
  | zero =>
    obtain rfl := Except.ok.inj h
    rw [hspan] at hfound
    cases hfound
  | succ fuel ih =>
    rcases walkChunks_cases h with ⟨hshort, rfl⟩ |
      ⟨head, tail, w₂, rfl, hhead, hlength, hread, hwalk⟩
    · rw [hspan] at hfound
      cases hfound
    · by_cases hcode : HepChunk.ofCode (ofBeBytes ((head.drop 2).take 2)) = some .authKey
      · obtain ⟨hseen, hw₂, hothers⟩ := readChunk_authKey hcode hread
        obtain ⟨hw₁, hkey⟩ := walkChunks_of_authSeen hseen hwalk
        rw [hw₁, hw₂] at hfound
        obtain ⟨rfl, rfl⟩ := Prod.mk.inj (Option.some.inj hfound)
        have htake : (head.take chunkHeaderLen).length = chunkHeaderLen := by
          rw [length_take]
          omega
        refine ⟨head.take chunkHeaderLen, head.drop chunkHeaderLen, tail, ?_, by rw [htake], rfl,
          ?_⟩
        · rw [← append_assoc, take_append_drop]
        · intro other hother
          have hdrop := length_drop (i := chunkHeaderLen) (l := head)
          have hsame : (head.take chunkHeaderLen ++ other).length = head.length := by
            rw [length_append, htake, hother, hdrop]
            omega
          refine ⟨{ w₁ with authKey := some other }, ?_, rfl, rfl, rfl⟩
          rw [← append_assoc, walkChunks_append (by omega) ?_]
          · have htwo : ((head.take chunkHeaderLen ++ other).drop 2).take 2 =
                (head.drop 2).take 2 := header_of_take (by decide) hhead
            rw [htwo, drop_left' htake, hothers other hother, hsame]
            exact hkey (some other)
          · have hfour : ((head.take chunkHeaderLen ++ other).drop 4).take 2 =
                (head.drop 4).take 2 := header_of_take (by decide) hhead
            rw [hfour, hlength, hsame]
      · obtain ⟨hspan', -, -⟩ := readChunk_of_ne hcode hread
        obtain ⟨before, token, after, rfl, hstart, hstop, hothers⟩ := ih (hspan'.trans hspan) hwalk
        refine ⟨head ++ before, token, after, (append_assoc _ _ _).symm, ?_, hstop, ?_⟩
        · rw [hstart, length_append, Nat.add_assoc]
        · intro other hother
          obtain ⟨w₃, hw₃, heqs⟩ := hothers other hother
          refine ⟨w₃, ?_, heqs⟩
          rw [append_assoc, walkChunks_append hhead hlength, hread]
          exact hw₃

end Span

end HepWalk

section Token

variable {datagram : List UInt8} {packet : HepPacket} {w w' : HepWalk} {start stop : ℕ}

theorem authSpan_of_packet (h : w.packet = .ok packet) : packet.authSpan = w.authSpan := by
  rw [HepWalk.packet] at h
  split at h
  · cases h
  · cases h
  · obtain rfl := Except.ok.inj h
    rfl

theorem exists_packet (h : w.packet = .ok packet) (hsrc : w'.srcAddr = w.srcAddr)
    (hdst : w'.dstAddr = w.dstAddr) : ∃ packet', w'.packet = .ok packet' := by
  rw [HepWalk.packet] at h ⊢
  rw [hsrc, hdst]
  split at h
  · cases h
  · cases h
  · exact ⟨_, rfl⟩

theorem authSpan_of_parseHepV12 (h : parseHepV12 datagram = .ok packet) :
    packet.authSpan = none := by
  unfold parseHepV12 at h
  dsimp only at h
  split_ifs at h <;> split at h <;> cases h <;> rfl

theorem parseHep_cases (h : parseHep datagram = .ok packet) (hspan : packet.authSpan ≠ none) :
    ∃ header rest trail w, datagram = header ++ (rest ++ trail) ∧ hep3Magic <+: header ∧
      header.length = hep3HeaderLen ∧ ofBeBytes (header.drop 4) = hep3HeaderLen + rest.length ∧
      rest ≠ [] ∧ HepWalk.walkChunks rest.length hep3HeaderLen rest {} = .ok w ∧
      w.packet = .ok packet := by
  unfold parseHep at h
  split_ifs at h with hmagic holder
  · unfold parseHepV3 at h
    dsimp only at h
    split_ifs at h with hshort hover hbelow hnone
    have hsix : hep3HeaderLen = 6 := rfl
    have hdata : datagram = datagram.take 6 ++
        ((datagram.take (ofBeBytes ((datagram.drop 4).take 2))).drop 6 ++
          datagram.drop (ofBeBytes ((datagram.drop 4).take 2))) := by
      have htake : datagram.take 6 =
          (datagram.take (ofBeBytes ((datagram.drop 4).take 2))).take 6 := by
        rw [take_take, Nat.min_eq_left (by omega)]
      rw [htake, ← append_assoc, take_append_drop, take_append_drop]
    have hlength : ((datagram.take (ofBeBytes ((datagram.drop 4).take 2))).drop 6).length =
        ofBeBytes ((datagram.drop 4).take 2) - 6 := by
      rw [length_drop, length_take]
      omega
    cases hwalk : HepWalk.walkChunks
        ((datagram.take (ofBeBytes ((datagram.drop 4).take 2))).drop hep3HeaderLen).length
        hep3HeaderLen
        ((datagram.take (ofBeBytes ((datagram.drop 4).take 2))).drop hep3HeaderLen) {} with
    | error e =>
      rw [hwalk] at h
      cases h
    | ok w =>
      rw [hwalk] at h
      refine ⟨_, _, _, w, hdata, ?_, ?_, ?_, ?_, hwalk, h⟩
      · exact prefix_of_prefix_length_le hmagic ( take_prefix _ _)
          (by rw [length_take, hep3Magic, length_cons]; simp; omega)
      · rw [length_take]
        omega
      · have hfour : (datagram.take 6).drop 4 = (datagram.drop 4).take 2 := drop_take
        rw [hfour, hlength]
        omega
      · intro hnil
        rw [hnil, length_nil] at hlength
        omega
  · exact absurd (authSpan_of_parseHepV12 h) hspan

theorem findAuthChunkSpan_cases (h : findAuthChunkSpan datagram = some (start, stop)) :
    ∃ before token after, datagram = before ++ (token ++ after) ∧ start = before.length ∧
      stop = start + token.length ∧
      ∀ other : List UInt8, other.length = token.length →
        findAuthChunkSpan (before ++ (other ++ after)) = some (start, stop) := by
  rw [findAuthChunkSpan] at h
  cases hparse : parseHep datagram with
  | error e =>
    rw [hparse] at h
    cases h
  | ok packet =>
    rw [hparse] at h
    have hspan : packet.authSpan = some (start, stop) := h
    obtain ⟨header, rest, trail, w, rfl, hmagic, hheader, htotal, hrest, hwalk, hpacket⟩ :=
      parseHep_cases hparse (by rw [hspan]; exact Option.some_ne_none _)
    rw [authSpan_of_packet hpacket] at hspan
    obtain ⟨before, token, after, rfl, hstart, hstop, hothers⟩ :=
      HepWalk.exists_authSpan rfl hwalk hspan
    refine ⟨header ++ before, token, after ++ trail, by simp, ?_, hstop, ?_⟩
    · rw [hstart, length_append, hheader]
    · intro other hother
      obtain ⟨w', hwalk', hspan', hsrc, hdst⟩ := hothers other hother
      obtain ⟨packet', hpacket'⟩ := exists_packet hpacket hsrc hdst
      have hlength : (before ++ (other ++ after)).length =
          (before ++ (token ++ after)).length := by
        simp [hother]
      have hother' : before ++ (other ++ after) ≠ [] := by
        rw [← length_pos_iff, hlength]
        exact length_pos_iff.mpr hrest
      have hbytes : header ++ before ++ (other ++ (after ++ trail)) =
          header ++ ((before ++ (other ++ after)) ++ trail) := by
        simp
      rw [findAuthChunkSpan, hbytes, parseHep_v3 hmagic hheader (by rw [htotal, hlength]) hother',
        hlength, hwalk']
      dsimp only
      rw [hpacket']
      dsimp only
      rw [authSpan_of_packet hpacket', hspan', hspan]

end Token

/-! ## Tokens -/

def tokenTag (token : List UInt8) : List UInt8 := token.drop hmacMacOffset

structure Carries (datagram before token after : List UInt8) : Prop where
  bytes : datagram = before ++ (token ++ after)
  span : findAuthChunkSpan datagram = some (before.length, before.length + token.length)

def maskTag (before token after : List UInt8) : List UInt8 :=
  before ++ token.take hmacMacOffset ++ zeroMac ++ after

section Tokens

variable {datagram before token after other : List UInt8}

theorem exists_carries {start stop : ℕ} (h : findAuthChunkSpan datagram = some (start, stop)) :
    ∃ before token after, Carries datagram before token after ∧ start = before.length ∧
      stop = start + token.length := by
  obtain ⟨before, token, after, hbytes, hstart, hstop, -⟩ := findAuthChunkSpan_cases h
  refine ⟨before, token, after, ⟨hbytes, ?_⟩, hstart, hstop⟩
  rw [h, hstop, hstart]

theorem Carries.replace (h : Carries datagram before token after)
    (hlength : other.length = token.length) :
    Carries (before ++ (other ++ after)) before other after := by
  obtain ⟨before', token', after', hbytes, hstart, hstop, hothers⟩ := findAuthChunkSpan_cases h.span
  have hsame : before ++ (token ++ after) = before' ++ (token' ++ after') :=
    h.bytes.symm.trans hbytes
  obtain ⟨rfl, hrest⟩ := append_inj hsame hstart
  obtain ⟨rfl, rfl⟩ := append_inj hrest (by omega)
  refine ⟨rfl, ?_⟩
  rw [hothers other hlength, hlength]

variable {before' token' after' : List UInt8}

theorem Carries.unique (h : Carries datagram before token after)
    (h' : Carries datagram before' token' after') :
    before = before' ∧ token = token' ∧ after = after' := by
  have hspan := h.span.symm.trans h'.span
  obtain ⟨hstart, hstop⟩ := Prod.mk.inj (Option.some.inj hspan)
  have hsame := h.bytes.symm.trans h'.bytes
  obtain ⟨rfl, hrest⟩ := append_inj hsame hstart
  obtain ⟨rfl, rfl⟩ := append_inj hrest (by omega)
  exact ⟨rfl, rfl, rfl⟩

theorem maskTag_eq (before token after : List UInt8) : maskTag before token after =
    before ++ ((token.take hmacMacOffset ++ zeroMac) ++ after) := by
  simp [maskTag]

theorem Carries.of_maskTag_eq {datagram' : List UInt8} (h : Carries datagram before token after)
    (h' : Carries datagram' before' token' after') (hlength : token.length = hmacTokenLen)
    (hlength' : token'.length = hmacTokenLen)
    (hmask : maskTag before token after = maskTag before' token' after') :
    before = before' ∧ token.take hmacMacOffset = token'.take hmacMacOffset ∧ after = after' := by
  have hzeros : ∀ t : List UInt8, t.length = hmacTokenLen →
      (t.take hmacMacOffset ++ zeroMac).length = t.length := by
    intro t ht
    rw [length_append, length_take, ht]
    rfl
  have hc := h.replace (hzeros token hlength)
  have hc' := h'.replace (hzeros token' hlength')
  rw [← maskTag_eq] at hc hc'
  rw [← hmask] at hc'
  obtain ⟨hbefore, htoken, hafter⟩ := hc.unique hc'
  exact ⟨hbefore, (append_inj_left' htoken rfl), hafter⟩

end Tokens

/-! ## The verdict -/

section Verdict

variable {hmac : List UInt8 → List UInt8 → List UInt8} {key : List UInt8} {window : ℕ}
  {cache : HmacNonceCache} {arrival : HmacArrival} {before token after : List UInt8}

/-- A token that passes every check but the one for replays. -/
structure Passes (hmac : List UInt8 → List UInt8 → List UInt8) (key : List UInt8) (window : ℕ)
    (arrival : HmacArrival) (before token after : List UInt8) : Prop where
  carries : Carries arrival.bytes before token after
  length : token.length = hmacTokenLen
  version : token.headD 0 = hmacTokenVersion
  inWindow : (arrival.now - tokenTime token) + (tokenTime token - arrival.now) ≤ window
  tag : hmac key (maskTag before token after) = tokenTag token

theorem hmacOverDatagram_append (pre rest : List UInt8) (hrest : 32 ≤ rest.length) :
    hmacOverDatagram hmac key (pre ++ rest) pre.length =
      hmac key (pre ++ zeroMac ++ rest.drop 32) := by
  have hlength : (pre ++ rest).length = pre.length + rest.length := length_append
  rw [hmacOverDatagram, if_neg (by omega), take_left, drop_length_add_append, hmacSha256Parts]
  simp

section

variable (h : Carries arrival.bytes before token after)
include h

theorem hmacOverDatagram_of_carries (hlength : token.length = hmacTokenLen) :
    hmacOverDatagram hmac key arrival.bytes (before.length + hmacMacOffset) =
      hmac key (maskTag before token after) := by
  have hoffset : hmacMacOffset + 32 = token.length := by
    rw [hlength]
    rfl
  have hbytes : arrival.bytes =
      (before ++ token.take hmacMacOffset) ++ (token.drop hmacMacOffset ++ after) := by
    rw [h.bytes, append_assoc, ← append_assoc (token.take _), take_append_drop]
  have hstart : before.length + hmacMacOffset = (before ++ token.take hmacMacOffset).length := by
    rw [length_append, length_take]
    omega
  have htag : (token.drop hmacMacOffset).length = 32 := by
    rw [length_drop]
    omega
  rw [hbytes, hstart, hmacOverDatagram_append _ _ (by rw [length_append]; omega),
    drop_left' htag, maskTag]

theorem Carries.token_eq :
    (arrival.bytes.take (before.length + token.length)).drop before.length = token := by
  rw [h.bytes, take_length_add_append, take_left, drop_left]

theorem Carries.tag_eq :
    (arrival.bytes.take (before.length + token.length)).drop (before.length + hmacMacOffset) =
      tokenTag token := by
  rw [← drop_drop, h.token_eq, tokenTag]

end

theorem hmacAuthOk_of_passes (cache : HmacNonceCache)
    (h : Passes hmac key window arrival before token after) :
    let swept := cache.sweep arrival.instant arrival.now window
    hmacAuthOk hmac key window cache arrival =
      if swept.contains (tokenNonce token) then (.error (some .replay), swept)
      else (.ok (), swept.insert (tokenNonce token) (tokenTime token)) := by
  have hformat : ¬ (arrival.bytes.length < before.length + token.length ∨
      before.length + token.length < before.length ∨
      before.length + token.length - before.length ≠ hmacTokenLen) := by
    have hlength : arrival.bytes.length = before.length + (token.length + after.length) := by
      rw [h.carries.bytes, length_append, length_append]
    have htoken := h.length
    omega
  have hversion : ¬ token.headD 0 = hmacTokenVersionUnbound := by
    rw [h.version]
    decide
  have htag : ¬ constantTimeEq (hmacOverDatagram hmac key arrival.bytes
      (before.length + hmacMacOffset)) ((arrival.bytes.take (before.length + token.length)).drop
        (before.length + hmacMacOffset)) = false := by
    rw [Bool.not_eq_false, constantTimeEq_iff, hmacOverDatagram_of_carries h.carries h.length,
      h.carries.tag_eq, h.tag]
  unfold hmacAuthOk
  rw [h.carries.span]
  unfold verifyHmacDatagram
  dsimp only
  rw [if_neg hformat, h.carries.token_eq, if_neg hversion, if_neg (not_not.mpr h.version),
    if_neg (not_lt.mpr h.inWindow), if_neg htag]
  split_ifs with hreplay
  · rfl
  · rfl

theorem hmacAuthOk_cases (hmac : List UInt8 → List UInt8 → List UInt8) (key : List UInt8)
    (window : ℕ) (cache : HmacNonceCache) (arrival : HmacArrival) :
    (∃ e, hmacAuthOk hmac key window cache arrival = (.error e, cache)) ∨
      ∃ before token after, Passes hmac key window arrival before token after := by
  unfold hmacAuthOk
  cases hspan : findAuthChunkSpan arrival.bytes with
  | none => exact .inl ⟨none, rfl⟩
  | some span =>
    obtain ⟨start, stop⟩ := span
    obtain ⟨before, token, after, hcarries, rfl, rfl⟩ := exists_carries hspan
    unfold verifyHmacDatagram
    dsimp only
    rw [hcarries.token_eq]
    by_cases hlength : token.length = hmacTokenLen
    · split_ifs with hformat hunbound hversion hwindow htag
      · exact .inl ⟨_, rfl⟩
      · exact .inl ⟨_, rfl⟩
      · exact .inl ⟨_, rfl⟩
      · exact .inl ⟨_, rfl⟩
      · exact .inl ⟨_, rfl⟩
      all_goals
        rw [Bool.not_eq_false, constantTimeEq_iff, hmacOverDatagram_of_carries hcarries hlength,
          hcarries.tag_eq] at htag
        exact .inr ⟨before, token, after, hcarries, hlength, not_not.mp hversion,
          not_lt.mp hwindow, htag⟩
    · rw [if_pos (.inr (.inr (by omega)))]
      exact .inl ⟨_, rfl⟩

end Verdict

/-! ## Datagrams that are built -/

theorem writeAt_append {pre : List UInt8} {start : ℕ} (hstart : start = pre.length)
    (rest data : List UInt8) :
    writeAt (pre ++ rest) start data = (pre ++ data) ++ rest.drop data.length := by
  rw [writeAt, hstart, take_left, drop_length_add_append]

section Built

variable (hmac : List UInt8 → List UInt8 → List UInt8) (endpoint : HepEndpoint)
  (timestamp : DateTime) (protocol : HepProtocol) (captureId : BitVec 32)
  (signing : HepHmacSigning) (correlationId : Option (List UInt8)) (payload : List UInt8)

def tokenHead : List UInt8 :=
  hmacTokenVersion :: (toBeBytes 8 signing.tokenTs.toNat ++ signing.nonce)

theorem length_tokenHead : (tokenHead signing).length = hmacMacOffset := by
  rw [tokenHead, length_cons, length_append, length_toBeBytes, signing.length_nonce]
  rfl

variable (tag : List UInt8)

theorem tokenTime_tokenHead : tokenTime (tokenHead signing ++ tag) = signing.tokenTs.toNat := by
  rw [tokenTime, tokenHead, cons_append, drop_one, tail_cons, append_assoc,
    take_left' (length_toBeBytes 8 _), ofBeBytes_toBeBytes signing.tokenTs.isLt]

theorem tokenNonce_tokenHead : tokenNonce (tokenHead signing ++ tag) = signing.nonce := by
  have hdrop : (tokenHead signing ++ tag).drop 9 = signing.nonce ++ tag := by
    rw [tokenHead, ← cons_append, append_assoc]
    exact drop_left' (by simp)
  rw [tokenNonce, hdrop, take_left' signing.length_nonce]

def unsignedFields : HepFields where
  endpoint
  timestamp
  protocol
  captureId
  authKey := some (List.replicate hmacTokenLen 0)
  correlationId
  payload
  key_fits := by
    rintro _ ⟨⟩
    simp [hmacTokenLen]

/-- What is built carries a token with the tag of the datagram, where the packet had room for it. -/
theorem exists_token_of_build (hlen : ∀ message, (hmac signing.key message).length = 32) :
    ∃ before after, Carries (buildHepV3HmacCorrelated hmac endpoint timestamp protocol captureId
        signing correlationId payload) before
      (tokenHead signing ++ hmac signing.key (before ++ tokenHead signing ++ zeroMac ++ after))
      after ∧
      before.length + (hmacTokenLen + after.length) =
        (unsignedFields endpoint timestamp protocol captureId correlationId
          payload).bytes.length := by
  let f := unsignedFields endpoint timestamp protocol captureId correlationId payload
  have hparse := f.parseHep_bytes []
  rw [append_nil] at hparse
  have hspan : findAuthChunkSpan f.bytes = some (f.keyStart, f.keyStart + hmacTokenLen) := by
    rw [findAuthChunkSpan, hparse]
    exact congrArg (fun n => some (f.keyStart, f.keyStart + n)) (length_replicate)
  obtain ⟨before, token, after, hcarries, hstart, hstop⟩ := exists_carries hspan
  have hlength : token.length = hmacTokenLen := by omega
  have hhead := length_tokenHead signing
  -- the fields of the token are written one behind the other
  let pre := before ++ tokenHead signing
  have hrest : ((((token ++ after).drop 1).drop 8).drop 16).length = 32 + after.length := by
    rw [drop_drop, drop_drop, length_drop, length_append, hlength, hmacTokenLen]
    omega
  have hafter : (((((token ++ after).drop 1).drop 8).drop 16).drop 32) = after := by
    rw [drop_drop, drop_drop, drop_drop]
    exact drop_left' hlength
  have hpre : ((before ++ [hmacTokenVersion]) ++ toBeBytes 8 signing.tokenTs.toNat) ++
      signing.nonce = pre := by
    simp [pre, tokenHead]
  have hbuild : buildHepV3HmacCorrelated hmac endpoint timestamp protocol captureId signing
      correlationId payload =
        before ++ ((tokenHead signing ++ hmac signing.key (pre ++ zeroMac ++ after)) ++ after) := by
    have hpkt : buildHepV3Correlated endpoint timestamp protocol captureId
        (some (List.replicate hmacTokenLen 0)) correlationId payload =
          before ++ (token ++ after) := hcarries.bytes
    unfold buildHepV3HmacCorrelated
    dsimp only
    rw [hpkt, ← hcarries.bytes, hspan]
    dsimp only
    rw [if_neg (by omega), hcarries.bytes, writeAt_append hstart,
      writeAt_append (by simp [hstart]), writeAt_append (by simp [hstart]),
      length_toBeBytes, signing.length_nonce, length_singleton, hpre]
    have hstart' : f.keyStart + hmacMacOffset = pre.length := by
      rw [hstart, ← hhead, length_append]
    rw [writeAt_append hstart', hstart', hmacOverDatagram_append _ _ (by omega), hlen, hafter]
    simp [pre]
  refine ⟨before, after, ?_, ?_⟩
  · rw [hbuild]
    apply hcarries.replace
    rw [length_append, hlen, hhead, hlength]
    rfl
  · rw [hcarries.bytes, length_append, length_append, hlength]

theorem lt_length_build (hlen : ∀ message, (hmac signing.key message).length = 32) :
    100 < (buildHepV3HmacCorrelated hmac endpoint timestamp protocol captureId signing correlationId
      payload).length := by
  obtain ⟨before, after, hcarries, hlength⟩ := exists_token_of_build hmac endpoint timestamp
    protocol captureId signing correlationId payload hlen
  have hhead := length_tokenHead signing
  have hbytes : (buildHepV3HmacCorrelated hmac endpoint timestamp protocol captureId signing
      correlationId payload).length = before.length + (hmacTokenLen + after.length) := by
    rw [hcarries.bytes, length_append, length_append, length_append, hlen, hhead]
    rfl
  rw [hbytes, hlength, ← HepFields.length_chunks, HepFields.chunks, append_assoc,
    append_assoc, flatMap_append, flatMap_append, length_append,
    length_append]
  simp only [HepFields.fixedChunks, HepFields.authChunks, unsignedFields, Option.toList_some,
    map_cons, map_nil, flatMap_cons, flatMap_nil, length_append,
    length_encodeChunk, length_toBeBytes, length_cons, length_nil, length_replicate,
    chunkHeaderLen, hmacTokenLen, hep3HeaderLen]
  omega

end Built

/-! ## Runs -/

namespace HmacNonceCache

variable {cache : HmacNonceCache} {instant now window : ℕ} {nonce other : List UInt8} {ts : ℕ}

theorem sweep_seen (cache : HmacNonceCache) (instant now window : ℕ) :
    (cache.sweep instant now window).seen = cache.seen ∨
      (cache.sweep instant now window).seen =
        cache.seen.filter (fun entry => now - window ≤ entry.2) := by
  rw [sweep, shouldPrune]
  cases cache.lastPrune with
  | none => exact .inr rfl
  | some prev =>
    dsimp only
    by_cases hrecent : instant - prev < 1000000000
    · rw [if_pos hrecent]
      exact .inl rfl
    · rw [if_neg hrecent]
      exact .inr rfl

theorem get?_of_sweep (h : (cache.sweep instant now window).seen.get? nonce = some ts) :
    cache.seen.get? nonce = some ts := by
  rcases cache.sweep_seen instant now window with hsame | hfiltered
  · rw [hsame] at h
    exact h
  · rw [hfiltered] at h
    exact IndexMap.get?_of_get?_filter h

theorem get?_sweep (h : cache.seen.get? nonce = some ts) (hrecent : now ≤ ts + window) :
    (cache.sweep instant now window).seen.get? nonce = some ts := by
  rcases cache.sweep_seen instant now window with hsame | hfiltered
  · rw [hsame]
    exact h
  · rw [hfiltered, IndexMap.get?_eq_some_iff]
    rw [IndexMap.get?_eq_some_iff] at h
    exact mem_filter.mpr ⟨h, by simpa using hrecent⟩

theorem contains_iff : cache.contains nonce = true ↔ ∃ ts, cache.seen.get? nonce = some ts := by
  rw [contains, Option.isSome_iff_exists]

theorem get?_insert (cache : HmacNonceCache) (nonce other : List UInt8) (ts : ℕ) :
    (cache.insert nonce ts).seen.get? other =
      if other = nonce then some ts else cache.seen.get? other :=
  IndexMap.get?_insert _ _ _ _

end HmacNonceCache

section Runs

variable {hmac : List UInt8 → List UInt8 → List UInt8} {key : List UInt8} {window : ℕ}
  {before : List HmacArrival} {arrival : HmacArrival} {nonce : List UInt8} {ts : ℕ}

theorem cacheAfter_concat : cacheAfter hmac key window (before ++ [arrival]) =
    (hmacAuthOk hmac key window (cacheAfter hmac key window before) arrival).2 := by
  rw [cacheAfter, foldl_append]
  rfl

/-- What one datagram does: nothing, or a sweep, or a sweep and its own nonce if it is accepted. -/
theorem step_cases (hmac : List UInt8 → List UInt8 → List UInt8) (key : List UInt8) (window : ℕ)
    (before : List HmacArrival) (arrival : HmacArrival) :
    let cache := cacheAfter hmac key window before
    let swept := cache.sweep arrival.instant arrival.now window
    (¬ Accepted hmac key window before arrival ∧
      (cacheAfter hmac key window (before ++ [arrival]) = cache ∨
        cacheAfter hmac key window (before ++ [arrival]) = swept)) ∨
    (Accepted hmac key window before arrival ∧ ∃ front token back,
      Passes hmac key window arrival front token back ∧
        swept.contains (tokenNonce token) = false ∧
        cacheAfter hmac key window (before ++ [arrival]) =
          swept.insert (tokenNonce token) (tokenTime token)) := by
  intro cache swept
  rw [cacheAfter_concat, Accepted]
  rcases hmacAuthOk_cases hmac key window cache arrival with ⟨e, he⟩ | ⟨front, token, back, hpasses⟩
  · left
    rw [he]
    exact ⟨(fun h => by cases h), .inl rfl⟩
  · have hverdict := hmacAuthOk_of_passes cache hpasses
    dsimp only at hverdict
    split_ifs at hverdict with hreplay
    · left
      rw [hverdict]
      exact ⟨(fun h => by cases h), .inr rfl⟩
    · right
      rw [hverdict]
      exact ⟨rfl, front, token, back, hpasses, Bool.not_eq_true _ ▸ hreplay, rfl⟩

section

variable (h : (cacheAfter hmac key window before).seen.get? nonce = some ts)
include h

theorem get?_cacheAfter_concat (hrecent : arrival.now ≤ ts + window) :
    (cacheAfter hmac key window (before ++ [arrival])).seen.get? nonce = some ts := by
  have hswept : ((cacheAfter hmac key window before).sweep arrival.instant arrival.now
      window).seen.get? nonce = some ts := HmacNonceCache.get?_sweep h hrecent
  rcases step_cases hmac key window before arrival with ⟨-, hsame | hsweep⟩ |
    ⟨-, front, token, back, -, hnew, hinsert⟩
  · rw [hsame]
    exact h
  · rw [hsweep]
    exact hswept
  · rw [hinsert, HmacNonceCache.get?_insert, if_neg]
    · exact hswept
    · rintro rfl
      rw [HmacNonceCache.contains, hswept] at hnew
      cases hnew

theorem get?_cacheAfter_append {later : List HmacArrival}
    (hrecent : ∀ arrival ∈ later, arrival.now ≤ ts + window) :
    (cacheAfter hmac key window (before ++ later)).seen.get? nonce = some ts := by
  induction later using List.reverseRecOn with
  | nil =>
    rw [append_nil]
    exact h
  | append_singleton later arrival ih =>
    rw [← append_assoc]
    apply get?_cacheAfter_concat
    · exact ih (fun a ha => hrecent a (mem_append_left _ ha))
    · exact hrecent arrival (mem_append_right _ mem_cons_self)

theorem exists_accepted_of_get? :
    ∃ earlier arrival later front token back, before = earlier ++ arrival :: later ∧
      Accepted hmac key window earlier arrival ∧
      Passes hmac key window arrival front token back ∧ tokenNonce token = nonce := by
  induction before using List.reverseRecOn with
  | nil => cases h
  | append_singleton before arrival ih =>
    have hold : (cacheAfter hmac key window before).seen.get? nonce = some ts →
        ∃ earlier a later front token back, before ++ [arrival] = earlier ++ a :: later ∧
          Accepted hmac key window earlier a ∧ Passes hmac key window a front token back ∧
          tokenNonce token = nonce := by
      intro hget
      obtain ⟨earlier, a, later, front, token, back, rfl, hrest⟩ := ih hget
      exact ⟨earlier, a, later ++ [arrival], front, token, back, by simp, hrest⟩
    rcases step_cases hmac key window before arrival with ⟨-, hsame | hsweep⟩ |
      ⟨haccepted, front, token, back, hpasses, -, hinsert⟩
    · rw [hsame] at h
      exact hold h
    · rw [hsweep] at h
      exact hold (HmacNonceCache.get?_of_sweep h)
    · rw [hinsert, HmacNonceCache.get?_insert] at h
      split_ifs at h with hnonce
      · exact ⟨before, arrival, [], front, token, back, rfl, haccepted, hpasses, hnonce.symm⟩
      · exact hold (HmacNonceCache.get?_of_sweep h)

end

/-! ### The laws -/

def Signs (datagram message : List UInt8) : Prop :=
  ∃ front token back, Carries datagram front token back ∧ message = maskTag front token back

def Built (hmac : List UInt8 → List UInt8 → List UInt8) (key datagram : List UInt8) : Prop :=
  ∃ endpoint timestamp protocol captureId signing correlationId payload, signing.key = key ∧
    datagram = buildHepV3HmacCorrelated hmac endpoint timestamp protocol captureId signing
      correlationId payload

theorem passes_of_accepted (h : Accepted hmac key window before arrival) :
    ∃ front token back, Passes hmac key window arrival front token back ∧
      (cacheAfter hmac key window (before ++ [arrival])).seen.get? (tokenNonce token) =
        some (tokenTime token) := by
  rcases step_cases hmac key window before arrival with ⟨hnot, -⟩ |
    ⟨-, front, token, back, hpasses, -, hinsert⟩
  · exact absurd h hnot
  · refine ⟨front, token, back, hpasses, ?_⟩
    rw [hinsert, HmacNonceCache.get?_insert, if_pos rfl]

variable {front token back : List UInt8}

theorem accepted_of_get?_eq_none (h : Passes hmac key window arrival front token back)
    (hnone : (cacheAfter hmac key window before).seen.get? (tokenNonce token) = none) :
    Accepted hmac key window before arrival := by
  have hnew : ¬ ((cacheAfter hmac key window before).sweep arrival.instant arrival.now
      window).contains (tokenNonce token) = true := by
    intro hcontains
    obtain ⟨ts, hts⟩ := HmacNonceCache.contains_iff.mp hcontains
    rw [HmacNonceCache.get?_of_sweep hts] at hnone
    cases hnone
  rw [Accepted, hmacAuthOk_of_passes _ h, if_neg hnew]

/-- The tag of a datagram that is accepted is that of its own bytes. A datagram with the same tag
that was built is the same datagram. -/
theorem eq_built_of_tag {datagram : List UInt8} {front' token' back' : List UInt8}
    (hlen : ∀ message, (hmac key message).length = 32)
    (hpasses : Passes hmac key window arrival front token back) (hbuilt : Built hmac key datagram)
    (hcarries : Carries datagram front' token' back') (htag : tokenTag token' = tokenTag token)
    (hinj : hmac key (maskTag front' token' back') = hmac key (maskTag front token back) →
      maskTag front' token' back' = maskTag front token back) : arrival.bytes = datagram := by
  obtain ⟨endpoint, timestamp, protocol, captureId, signing, correlationId, payload, rfl, rfl⟩ :=
    hbuilt
  obtain ⟨before, after, hbuild, -⟩ := exists_token_of_build hmac endpoint timestamp protocol
    captureId signing correlationId payload hlen
  have hhead := length_tokenHead signing
  obtain ⟨rfl, rfl, rfl⟩ := hcarries.unique hbuild
  have hlength : (tokenHead signing ++ hmac signing.key
      (front' ++ tokenHead signing ++ zeroMac ++ back')).length = hmacTokenLen := by
    rw [length_append, hlen, hhead]
    rfl
  have hmask : maskTag front' (tokenHead signing ++ hmac signing.key
      (front' ++ tokenHead signing ++ zeroMac ++ back')) back' =
        front' ++ tokenHead signing ++ zeroMac ++ back' := by
    rw [maskTag, take_left' hhead]
  rw [tokenTag, drop_left' hhead, ← hpasses.tag] at htag
  rw [hmask] at hinj
  have hsame := hinj htag
  obtain ⟨hfront, htoken, hback⟩ := hcarries.of_maskTag_eq hpasses.carries hlength hpasses.length
    (hmask.trans hsame)
  rw [hcarries.bytes, hpasses.carries.bytes, hfront, hback]
  congr 2
  rw [← take_append_drop hmacMacOffset token, ← htoken, take_left' hhead, ← tokenTag,
    ← hpasses.tag, ← hsame, hfront, hback]

theorem not_accepted_again {between : List HmacArrival} {again : HmacArrival}
    (haccepted : Accepted hmac key window before arrival) (hbytes : again.bytes = arrival.bytes)
    (hnow : ∀ a ∈ between, a.now ≤ again.now) :
    ¬ Accepted hmac key window (before ++ arrival :: between) again := by
  intro hagain
  obtain ⟨front, token, back, hpasses, hget⟩ := passes_of_accepted haccepted
  obtain ⟨front', token', back', hpasses', -⟩ := passes_of_accepted hagain
  have hcarries := hpasses'.carries
  rw [hbytes] at hcarries
  obtain ⟨rfl, rfl, rfl⟩ := hpasses.carries.unique hcarries
  have hwindow := hpasses'.inWindow
  have hlast : again.now ≤ tokenTime token + window := by omega
  have hkept := get?_cacheAfter_append hget
    (fun a ha => (hnow a ha).trans hlast)
  rw [append_assoc, singleton_append] at hkept
  have hswept : ((cacheAfter hmac key window (before ++ arrival :: between)).sweep again.instant
      again.now window).seen.get? (tokenNonce token) = some (tokenTime token) :=
    HmacNonceCache.get?_sweep hkept hlast
  rw [Accepted, hmacAuthOk_of_passes _ hpasses', if_pos] at hagain
  · cases hagain
  · exact HmacNonceCache.contains_iff.mpr ⟨_, hswept⟩

/-- A datagram that is built, comes in the window and has a nonce that no accepted one had before is
accepted. -/
theorem accepted_of_fresh {endpoint : HepEndpoint} {timestamp : DateTime} {protocol : HepProtocol}
    {captureId : BitVec 32} {signing : HepHmacSigning} {correlationId : Option (List UInt8)}
    {payload : List UInt8} (hlen : ∀ message, (hmac signing.key message).length = 32)
    (hbytes : arrival.bytes = buildHepV3HmacCorrelated hmac endpoint timestamp protocol captureId
      signing correlationId payload)
    (hwindow : (arrival.now - signing.tokenTs.toNat) + (signing.tokenTs.toNat - arrival.now) ≤
      window)
    (hfresh : ∀ earlier a later, before = earlier ++ a :: later →
      Accepted hmac signing.key window earlier a →
      ∀ front token back, Carries a.bytes front token back → tokenNonce token ≠ signing.nonce) :
    Accepted hmac signing.key window before arrival := by
  obtain ⟨front, back, hcarries, -⟩ := exists_token_of_build hmac endpoint timestamp protocol
    captureId signing correlationId payload hlen
  rw [← hbytes] at hcarries
  have hhead := length_tokenHead signing
  generalize htag : hmac signing.key (front ++ tokenHead signing ++ zeroMac ++ back) = tag
    at hcarries
  have hlength : tag.length = 32 := htag ▸ hlen _
  have htime := tokenTime_tokenHead signing tag
  have hnonce := tokenNonce_tokenHead signing tag
  have hpasses : Passes hmac signing.key window arrival front (tokenHead signing ++ tag) back := by
    refine ⟨hcarries, ?_, rfl, ?_, ?_⟩
    · rw [length_append, hlength, hhead]
      rfl
    · rw [htime]
      exact hwindow
    · rw [maskTag, take_left' hhead, tokenTag, drop_left' hhead, htag]
  apply accepted_of_get?_eq_none hpasses
  rw [hnonce, Option.eq_none_iff_forall_ne_some]
  intro ts hget
  obtain ⟨earlier, a, later, front', token', back', hsplit, haccepted, hpasses', heq⟩ :=
    exists_accepted_of_get? hget
  exact hfresh earlier a later hsplit haccepted front' token' back' hpasses'.carries heq

theorem contains_of_not_accepted {now : ℕ} (hnot : ¬ Accepted hmac key window before arrival)
    (hnow : arrival.now ≤ now) (hwindow : (now - ts) + (ts - now) ≤ window)
    (hreused : ∀ t, (cacheAfter hmac key window before).seen.get? nonce = some t → t = ts) :
    (cacheAfter hmac key window (before ++ [arrival])).contains nonce =
      (cacheAfter hmac key window before).contains nonce := by
  rw [Bool.eq_iff_iff, HmacNonceCache.contains_iff, HmacNonceCache.contains_iff]
  constructor
  · rintro ⟨t, ht⟩
    rcases step_cases hmac key window before arrival with ⟨-, hsame | hsweep⟩ | ⟨haccepted, -⟩
    · exact ⟨t, hsame ▸ ht⟩
    · rw [hsweep] at ht
      exact ⟨t, HmacNonceCache.get?_of_sweep ht⟩
    · exact absurd haccepted hnot
  · rintro ⟨t, ht⟩
    obtain rfl := hreused t ht
    exact ⟨t, get?_cacheAfter_concat ht (by omega)⟩

/-- Over a run with a clock that never goes back, where the tags of different messages differ: what
is accepted has the tag of its own bytes, and is the datagram that was built with that tag if one
was; nothing is accepted twice; what is built and comes fresh in the window is accepted; and a
refusal forgets no nonce that its token could still come with. -/
theorem signed_datagram_laws {built : Set (List UInt8)} {arrivals : List HmacArrival}
    (hbuilt : ∀ datagram ∈ built, Built hmac key datagram)
    (hlen : ∀ message, (hmac key message).length = 32)
    (hinj : Set.InjOn (hmac key) {message | ∃ datagram,
      (datagram ∈ built ∨ ∃ a ∈ arrivals, a.bytes = datagram) ∧ Signs datagram message})
    (hnow : arrivals.Pairwise (fun a b => a.now ≤ b.now)) :
    (∀ before a after, arrivals = before ++ a :: after → Accepted hmac key window before a →
      ∃ front token back, Carries a.bytes front token back ∧
        tokenTag token = hmac key (maskTag front token back) ∧
        ∀ datagram ∈ built, ∀ front' token' back', Carries datagram front' token' back' →
          tokenTag token' = tokenTag token → a.bytes = datagram) ∧
    (∀ before a between b after, arrivals = before ++ a :: between ++ b :: after →
      Accepted hmac key window before a → b.bytes = a.bytes →
      ¬ Accepted hmac key window (before ++ a :: between) b) ∧
    (∀ before a after, arrivals = before ++ a :: after →
      ∀ endpoint timestamp protocol captureId correlationId payload,
      ∀ signing : HepHmacSigning, signing.key = key →
      a.bytes = buildHepV3HmacCorrelated hmac endpoint timestamp protocol captureId signing
        correlationId payload →
      (a.now - signing.tokenTs.toNat) + (signing.tokenTs.toNat - a.now) ≤ window →
      (∀ earlier b later, before = earlier ++ b :: later → Accepted hmac key window earlier b →
        ∀ front token back, Carries b.bytes front token back → tokenNonce token ≠ signing.nonce) →
      Accepted hmac key window before a) ∧
    (∀ before a after, arrivals = before ++ a :: after → ¬ Accepted hmac key window before a →
      ∀ nonce ts now, a.now ≤ now → (now - ts) + (ts - now) ≤ window →
      (∀ t, (cacheAfter hmac key window before).seen.get? nonce = some t → t = ts) →
      (cacheAfter hmac key window (before ++ [a])).contains nonce =
        (cacheAfter hmac key window before).contains nonce) := by
  refine ⟨?_, ?_, ?_, ?_⟩
  · rintro before a after rfl haccepted
    obtain ⟨front, token, back, hpasses, -⟩ := passes_of_accepted haccepted
    refine ⟨front, token, back, hpasses.carries, hpasses.tag.symm, ?_⟩
    intro datagram hmem front' token' back' hcarries htag
    apply eq_built_of_tag hlen hpasses (hbuilt datagram hmem) hcarries htag
    apply hinj
    · exact ⟨datagram, .inl hmem, front', token', back', hcarries, rfl⟩
    · exact ⟨a.bytes, .inr ⟨a, by simp, rfl⟩, front, token, back, hpasses.carries, rfl⟩
  · rintro before a between b after rfl haccepted hbytes
    apply not_accepted_again haccepted hbytes
    intro c hc
    have hpair := (pairwise_append.mp hnow).2.2
    exact hpair c (mem_append_right _ (mem_cons_of_mem _ hc)) b mem_cons_self
  · rintro before a after - endpoint timestamp protocol captureId correlationId payload signing rfl
      hbytes hwindow hfresh
    exact accepted_of_fresh hlen hbytes hwindow hfresh
  · rintro before a after - hnot nonce ts now hle hwindow hreused
    exact contains_of_not_accepted hnot hle hwindow hreused

end Runs

/-! ### A run -/

section Sample

def sampleEndpoint : HepEndpoint := ⟨.v4 0x0A000001, .v4 0x0A000002, 5060, 5060, .udp⟩

def sampleSigning (ts : BitVec 64) (n : UInt8) : HepHmacSigning :=
  ⟨[0x6B], ts, List.replicate 16 n, length_replicate⟩

def sampleMessage (ts : BitVec 64) (n : UInt8) : List UInt8 :=
  buildHepV3Correlated sampleEndpoint (ts.toNat * 1000000000) .sip 1
    (some (tokenHead (sampleSigning ts n) ++ zeroMac)) none [0x41]

/-- A packet of two addresses and a token, in another order of chunks than the builder's. -/
def foreignPacket (tag : List UInt8) : List UInt8 :=
  hep3Magic ++ toBeBytes 2 89 ++ encodeChunk (.srcIpv4, [10, 0, 0, 1]) ++
    encodeChunk (.dstIpv4, [10, 0, 0, 2]) ++
    encodeChunk (.authKey, tokenHead (sampleSigning 90 1) ++ tag)

/-- HMAC-SHA256 under the key `k`, of the messages here. -/
def sampleHmac (_key message : List UInt8) : List UInt8 :=
  toBeBytes 32 <|
    if message = sampleMessage 90 1 then
      0x4ac8267bc9a46364a22732e69c7e42c5cc8ca956bb8d34525c0ae2070c8f591d
    else if message = sampleMessage 101 2 then
      0xeabed34dcf687423902a4d4cc523f45984005d08bcbbb326ac79bd385867e0fe
    else if message = sampleMessage 101 1 then
      0x9f7fd4ff4afa5af4d24b69f4367546c10769e22e6f0c9d639ad97e130a825b97
    else if message = foreignPacket zeroMac then
      0xd38a3d7a574162858bef4ee6117190f3aae9e37b3d2fa757e996e13590a61921
    else 0

def sampleDatagram (ts : BitVec 64) (n : UInt8) : List UInt8 :=
  buildHepV3Hmac sampleHmac sampleEndpoint (ts.toNat * 1000000000) .sip 1 (sampleSigning ts n)
    [0x41]

theorem length_sampleHmac (key message : List UInt8) : (sampleHmac key message).length = 32 :=
  length_toBeBytes 32 _

theorem sampleDatagram_eq (ts : BitVec 64) (n : UInt8) : sampleDatagram ts n =
    buildHepV3HmacCorrelated sampleHmac sampleEndpoint (ts.toNat * 1000000000) .sip 1
      (sampleSigning ts n) none [0x41] := by
  rw [sampleDatagram, buildHepV3Hmac]

/-- A datagram comes twice, and is accepted once. -/
theorem signed_datagram_laws_sent_twice :
    Accepted sampleHmac [0x6B] 10 [] ⟨sampleDatagram 90 1, 0, 100⟩ ∧
      ¬ Accepted sampleHmac [0x6B] 10 [⟨sampleDatagram 90 1, 0, 100⟩]
        ⟨sampleDatagram 90 1, 500000000, 100⟩ := by
  have hbytes := sampleDatagram_eq 90 1
  generalize sampleDatagram 90 1 = d at hbytes ⊢
  have hbuilt : ∀ datagram ∈ ({d} : Set (List UInt8)), Built sampleHmac [0x6B] datagram := by
    intro datagram hmem
    rw [Set.mem_singleton_iff.mp hmem]
    exact ⟨_, _, _, _, sampleSigning 90 1, _, _, rfl, hbytes⟩
  -- only one message is tagged
  have hinj : Set.InjOn (sampleHmac [0x6B]) {message | ∃ datagram,
      (datagram ∈ ({d} : Set (List UInt8)) ∨ ∃ a ∈ [HmacArrival.mk d 0 100,
        HmacArrival.mk d 500000000 100], a.bytes = datagram) ∧ Signs datagram message} := by
    rintro m ⟨e, he, front, token, back, hcarries, rfl⟩ m' ⟨e', he', front', token', back',
      hcarries', rfl⟩ -
    have hone : e = d := by simpa [eq_comm] using he
    have hone' : e' = d := by simpa [eq_comm] using he'
    rw [hone] at hcarries
    rw [hone'] at hcarries'
    obtain ⟨rfl, rfl, rfl⟩ := hcarries.unique hcarries'
    rfl
  obtain ⟨-, htwice, hfresh, -⟩ := @signed_datagram_laws sampleHmac [0x6B] 10 {d}
    [⟨d, 0, 100⟩, ⟨d, 500000000, 100⟩] hbuilt (length_sampleHmac [0x6B]) hinj (by simp)
  have hfirst := hfresh [] ⟨d, 0, 100⟩ _ rfl _ _ _ _ _ _ (sampleSigning 90 1) rfl hbytes
    (by decide : (100 - (90#64).toNat) + ((90#64).toNat - 100) ≤ 10)
    (fun earlier b later hnil => absurd hnil (by simp))
  exact ⟨hfirst, htwice [] ⟨d, 0, 100⟩ [] ⟨d, 500000000, 100⟩ [] rfl hfirst rfl⟩

/-- A datagram that no builder made is accepted with its tag, and a replay that is refused drops a
nonce from the memory, so that a datagram with that nonce is accepted. -/
theorem foreign_datagram_accepted_and_nonce_forgotten :
    ([sampleMessage 90 1, sampleMessage 101 2, sampleMessage 101 1, foreignPacket zeroMac].map
        (sampleHmac [0x6B])).Nodup ∧
      Accepted sampleHmac [0x6B] 10 []
        ⟨foreignPacket (sampleHmac [0x6B] (foreignPacket zeroMac)), 0, 100⟩ ∧
      ¬ Built sampleHmac [0x6B] (foreignPacket (sampleHmac [0x6B] (foreignPacket zeroMac))) ∧
      ¬ Accepted sampleHmac [0x6B] 10
        [⟨sampleDatagram 90 1, 0, 100⟩, ⟨sampleDatagram 101 2, 900000000, 101⟩]
        ⟨sampleDatagram 101 1, 950000000, 101⟩ ∧
      ¬ Accepted sampleHmac [0x6B] 10
        [⟨sampleDatagram 90 1, 0, 100⟩, ⟨sampleDatagram 101 2, 900000000, 101⟩]
        ⟨sampleDatagram 101 2, 1100000000, 101⟩ ∧
      Accepted sampleHmac [0x6B] 10
        [⟨sampleDatagram 90 1, 0, 100⟩, ⟨sampleDatagram 101 2, 900000000, 101⟩,
          ⟨sampleDatagram 101 2, 1100000000, 101⟩]
        ⟨sampleDatagram 101 1, 1150000000, 101⟩ := by
  refine ⟨by decide +kernel, by decide +kernel, ?_, by decide +kernel, by decide +kernel,
    by decide +kernel⟩
  rintro ⟨endpoint, timestamp, protocol, captureId, signing, correlationId, payload, hkey, hbytes⟩
  have hlt := lt_length_build sampleHmac endpoint timestamp protocol captureId signing
    correlationId payload (length_sampleHmac _)
  rw [← hbytes] at hlt
  revert hlt
  decide +kernel

end Sample

end Sipnab
