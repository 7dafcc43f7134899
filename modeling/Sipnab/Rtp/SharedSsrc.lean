import Sipnab.Rtp.RocTracking

/-!
# Two streams under one SSRC

A context tries every candidate key on a packet, and tracks one index for the SSRC, whichever key
authenticated the packet. Two streams under one SSRC then move the index of each other. They do not
disturb each other exactly as long as every packet is in the window of the highest index of both.
-/

namespace Sipnab

open List Option

/-! ## Session keys -/

section SessionKeys

variable {crypto : Crypto} {km : SrtpKeyMaterial}

theorem aesCmPrf_eq_ok {masterKey masterSalt : List UInt8} (label : UInt8) (outputLen : ℕ)
    (hsalt : masterSalt.length ≤ 14) (hkey : masterKey.length = 16 ∨ masterKey.length = 32) :
    ∃ out, aesCmPrf crypto masterKey masterSalt label outputLen = .ok out := by
  rw [aesCmPrf, if_neg (not_lt.mpr hsalt)]
  split_ifs with hzero hlength
  · exact ⟨_, rfl⟩
  · omega
  · exact ⟨_, rfl⟩

theorem lengths_of_aesCmPrf_eq_ok {masterKey masterSalt out : List UInt8} {label : UInt8}
    {outputLen : ℕ} (hlen : outputLen ≠ 0)
    (h : aesCmPrf crypto masterKey masterSalt label outputLen = .ok out) :
    masterSalt.length ≤ 14 ∧ (masterKey.length = 16 ∨ masterKey.length = 32) := by
  rw [aesCmPrf] at h
  split_ifs at h with hsalt hkey
  omega

variable {session : DerivedSessionKeys} {fingerprint i : ℕ} {keys : List SrtpKeyMaterial}
  {cache : SessionKeyCache}

theorem derive_eq_ok_iff :
    DerivedSessionKeys.derive crypto km fingerprint = .ok session ↔
      session.fingerprint = fingerprint ∧
      aesCmPrf crypto km.masterKey km.masterSalt 0 km.masterKey.length = .ok session.cipherKey ∧
      aesCmPrf crypto km.masterKey km.masterSalt 2 14 = .ok session.cipherSalt ∧
      deriveSessionKey crypto km.masterKey km.masterSalt srtpLabelAuth srtpAuthKeyLen =
        .ok session.authKey := by
  obtain ⟨fingerprint', cipherKey, cipherSalt, authKey⟩ := session
  rw [DerivedSessionKeys.derive]
  cases aesCmPrf crypto km.masterKey km.masterSalt 0 km.masterKey.length with
  | error e => simp [bind, Except.bind]
  | ok key =>
    cases aesCmPrf crypto km.masterKey km.masterSalt 2 14 with
    | error e => simp [bind, Except.bind]
    | ok salt =>
      cases deriveSessionKey crypto km.masterKey km.masterSalt srtpLabelAuth srtpAuthKeyLen with
      | error e => simp [bind, Except.bind]
      | ok auth => simp [bind, Except.bind, pure, Except.pure, eq_comm]

theorem derive_of_deriveSessionKey {authKey : List UInt8}
    (h : deriveSessionKey crypto km.masterKey km.masterSalt srtpLabelAuth srtpAuthKeyLen =
      .ok authKey) : ∃ session, DerivedSessionKeys.derive crypto km fingerprint = .ok session := by
  obtain ⟨hsalt, hkey⟩ := lengths_of_aesCmPrf_eq_ok (by decide) h
  obtain ⟨cipherKey, hcipherKey⟩ := @aesCmPrf_eq_ok crypto _ _ 0 km.masterKey.length hsalt hkey
  obtain ⟨cipherSalt, hcipherSalt⟩ := @aesCmPrf_eq_ok crypto _ _ 2 14 hsalt hkey
  exact ⟨⟨fingerprint, cipherKey, cipherSalt, authKey⟩,
    derive_eq_ok_iff.mpr ⟨rfl, hcipherKey, hcipherSalt, h⟩⟩

def sessionOf (crypto : Crypto) (km : SrtpKeyMaterial) : Except SrtpError DerivedSessionKeys :=
  DerivedSessionKeys.derive crypto km (crypto.fingerprint km.masterKey km.masterSalt km.suite)

/-- Whatever is cached was derived from the key at its place. -/
def SessionKeyCache.Sound (crypto : Crypto) (keys : List SrtpKeyMaterial)
    (cache : SessionKeyCache) : Prop :=
  ∀ i cached, cache.entries.get? i = some cached →
    ∃ km, keys[i]? = some km ∧ sessionOf crypto km = .ok cached

theorem SessionKeyCache.Sound.insert (h : cache.Sound crypto keys) (hkey : keys[i]? = some km)
    (hsession : sessionOf crypto km = .ok session) (deriveCount : ℕ) :
    SessionKeyCache.Sound crypto keys ⟨cache.entries.insert i session, deriveCount⟩ := by
  intro j cached hcached
  rw [IndexMap.insert, IndexMap.get?_alter] at hcached
  split_ifs at hcached with hj
  · obtain rfl := some.inj hcached
    exact ⟨km, hj ▸ hkey, hsession⟩
  · exact h j cached hcached

theorem getOrDerive_of_sound (h : cache.Sound crypto keys) (hkey : keys[i]? = some km) :
    (∃ e, cache.getOrDerive crypto i km = .error e ∧ sessionOf crypto km = .error e) ∨
    ∃ session cache', cache.getOrDerive crypto i km = .ok (session, cache') ∧
      sessionOf crypto km = .ok session ∧ cache'.Sound crypto keys := by
  rw [SessionKeyCache.getOrDerive]
  cases hcached : cache.entries.get? i with
  | some cached =>
    obtain ⟨km', hkey', hsession⟩ := h i cached hcached
    obtain rfl : km' = km := some.inj (hkey'.symm.trans hkey)
    have hfingerprint := (derive_eq_ok_iff.mp hsession).1
    exact Or.inr ⟨cached, cache, if_pos hfingerprint, hsession, h⟩
  | none =>
    cases hsession : sessionOf crypto km with
    | error e =>
      rw [sessionOf] at hsession
      exact Or.inl ⟨e, by dsimp only; rw [hsession]; rfl, rfl⟩
    | ok session =>
      have hsound := h.insert hkey hsession (cache.deriveCount + 1)
      rw [sessionOf] at hsession
      exact Or.inr ⟨session, _, by dsimp only; rw [hsession]; rfl, rfl, hsound⟩

end SessionKeys

/-! ## One packet -/

/-- The packet is long enough for the key's tag, and the tag verifies with the counter. -/
def verifies (crypto : Crypto) (km : SrtpKeyMaterial) (packet : List UInt8) (roc : BitVec 32) :
    Bool :=
  match tagVerifies crypto km packet roc with
  | .ok verified => decide (12 + authTagLen km.suite ≤ packet.length) && verified
  | .error _ => false

/-- The packet in plain text, where it decrypts under the key with the counter. -/
def plainOf (crypto : Crypto) (km : SrtpKeyMaterial) (packet : List UInt8) (payloadOffset : ℕ)
    (roc : BitVec 32) : Option (List UInt8) :=
  match sessionOf crypto km with
  | .error _ => none
  | .ok session =>
    match decryptSrtpPayloadWithSession crypto packet payloadOffset (authTagLen km.suite)
        session.cipherKey session.cipherSalt roc with
    | .ok plaintext => some (packet.take payloadOffset ++ plaintext)
    | .error _ => none

section OnePacket

variable {crypto : Crypto} {km : SrtpKeyMaterial} {packet : List UInt8} {ssrc roc : BitVec 32}

theorem verifies_eq_false_of_session {e : SrtpError} (h : sessionOf crypto km = .error e) :
    verifies crypto km packet roc = false := by
  cases hkey : deriveSessionKey crypto km.masterKey km.masterSalt srtpLabelAuth srtpAuthKeyLen with
  | error e' =>
    rw [verifies, tagVerifies, hkey]
    rfl
  | ok authKey =>
    obtain ⟨session, hsession⟩ := derive_of_deriveSessionKey hkey
    cases h.symm.trans hsession

theorem verifyRocWithAuthKey_of_session {session : DerivedSessionKeys}
    (hsession : sessionOf crypto km = .ok session) (hssrc : packetSsrc packet = ssrc)
    (tracker : SrtpRocTracker) :
    let guess := guessRoc (tracker.perSsrc.get? ssrc) (packetSequence packet)
    (verifies crypto km packet guess = true ∧
      tracker.verifyRocWithAuthKey crypto packet (authTagLen km.suite) session.authKey =
        .ok (some guess, tracker.accept ssrc guess (packetSequence packet))) ∨
    (verifies crypto km packet guess = false ∧
      (tracker.verifyRocWithAuthKey crypto packet (authTagLen km.suite) session.authKey =
          .ok (none, tracker) ∨
        ∃ e, tracker.verifyRocWithAuthKey crypto packet (authTagLen km.suite) session.authKey =
          .error e)) := by
  intro guess
  have hauth := (derive_eq_ok_iff.mp hsession).2.2.2
  by_cases hlong : 12 + authTagLen km.suite ≤ packet.length
  · cases htag : tagVerifies crypto km packet guess with
    | error e =>
      refine Or.inr ⟨by rw [verifies, htag], Or.inr ⟨e, ?_⟩⟩
      rw [tagVerifies, hauth] at htag
      rw [SrtpRocTracker.verifyRocWithAuthKey, if_neg (not_lt.mpr hlong), hssrc]
      exact congrArg (fun x => Except.bind x _) htag
    | ok verified =>
      have hverifies : verifies crypto km packet guess = verified := by
        rw [verifies, htag]
        simp [hlong]
      rw [tagVerifies, hauth] at htag
      have hcheck := verifyRocWithAuthKey_eq hlong hssrc htag
      rw [hverifies, hcheck]
      cases verified with
      | true => exact Or.inl ⟨rfl, rfl⟩
      | false => exact Or.inr ⟨rfl, Or.inl rfl⟩
  · refine Or.inr ⟨?_, Or.inr ⟨_, if_pos (not_le.mp hlong)⟩⟩
    rw [verifies]
    cases tagVerifies crypto km packet guess with
    | error e => rfl
    | ok verified => simp [hlong]

/-- Trying keys: the first one whose tag verifies with the guessed counter decides, and without one
nothing is tracked. -/
theorem tryKeys_eq (payloadOffset : ℕ) (hssrc : packetSsrc packet = ssrc)
    (order : List (ℕ × SrtpKeyMaterial)) (ctx : SrtpContext)
    (horder : ∀ e ∈ order, ctx.keys[e.1]? = some e.2)
    (hsound : ctx.sessionCache.Sound crypto ctx.keys) :
    let guess := guessRoc (ctx.tracker.perSsrc.get? ssrc) (packetSequence packet)
    let found := order.find? (fun e => verifies crypto e.2 packet guess)
    let result := SrtpContext.tryKeys crypto packet payloadOffset order ctx
    result.2 = found.map (fun e => (guess, plainOf crypto e.2 packet payloadOffset guess)) ∧
    result.1.keys = ctx.keys ∧ result.1.sessionCache.Sound crypto ctx.keys ∧
    result.1.tracker = if found.isSome then ctx.tracker.accept ssrc guess (packetSequence packet)
      else ctx.tracker := by
  intro guess found result
  induction order generalizing ctx with
  | nil => exact ⟨rfl, rfl, hsound, rfl⟩
  | cons e rest ih =>
    obtain ⟨i, km⟩ := e
    have hrest : ∀ e ∈ rest, ctx.keys[e.1]? = some e.2 :=
      fun e he => horder e (mem_cons_of_mem _ he)
    rcases getOrDerive_of_sound hsound (horder _ mem_cons_self) with
      ⟨error, hget, hsession⟩ | ⟨session, cache', hget, hsession, hsound'⟩
    · -- no session keys: the next candidate
      have hfound : found = rest.find? (fun e => verifies crypto e.2 packet guess) :=
        List.find?_cons_of_neg (by simp [verifies_eq_false_of_session hsession])
      have hresult : result = SrtpContext.tryKeys crypto packet payloadOffset rest ctx := by
        simp only [result, SrtpContext.tryKeys, hget]
      rw [hfound, hresult]
      exact ih ctx hrest hsound
    · rcases verifyRocWithAuthKey_of_session hsession hssrc ctx.tracker with
        ⟨hverifies, hcheck⟩ | ⟨hverifies, hcheck⟩
      · have hfound : found = some (i, km) := List.find?_cons_of_pos hverifies
        rw [hfound]
        simp only [result, SrtpContext.tryKeys, hget, hcheck, map_some, isSome_some, if_true]
        rw [plainOf, hsession]
        dsimp only
        cases decryptSrtpPayloadWithSession crypto packet payloadOffset (authTagLen km.suite)
          session.cipherKey session.cipherSalt guess with
        | ok plaintext => exact ⟨rfl, rfl, hsound', rfl⟩
        | error e => exact ⟨rfl, rfl, hsound', rfl⟩
      · have hfound : found = rest.find? (fun e => verifies crypto e.2 packet guess) :=
          List.find?_cons_of_neg (by simp [guess, hverifies])
        have hresult : result = SrtpContext.tryKeys crypto packet payloadOffset rest
            { ctx with sessionCache := cache' } := by
          rcases hcheck with hcheck | ⟨error, hcheck⟩
          · simp only [result, SrtpContext.tryKeys, hget, hcheck]
          · simp only [result, SrtpContext.tryKeys, hget, hcheck]
        rw [hfound, hresult]
        exact ih { ctx with sessionCache := cache' } hrest hsound'

end OnePacket

/-! ## Two streams -/

def SameMaster (a b : SrtpKeyMaterial) : Prop :=
  a.suite = b.suite ∧ a.masterKey = b.masterKey ∧ a.masterSalt = b.masterSalt

instance (a b : SrtpKeyMaterial) : Decidable (SameMaster a b) :=
  inferInstanceAs (Decidable (_ ∧ _ ∧ _))

theorem plainOf_of_sameMaster {crypto : Crypto} {a b : SrtpKeyMaterial} (h : SameMaster a b)
    (packet : List UInt8) (payloadOffset : ℕ) (roc : BitVec 32) :
    plainOf crypto a packet payloadOffset roc = plainOf crypto b packet payloadOffset roc := by
  obtain ⟨suite, masterKey, masterSalt, pin⟩ := a
  obtain ⟨hsuite, hkey, hsalt⟩ := h
  dsimp only at hsuite hkey hsalt
  subst hsuite hkey hsalt
  rfl

/-- A packet of one of two streams under one SSRC. Its tag verifies exactly under the master key of
its stream, with the counter of its index. -/
structure SharedArrival (crypto : Crypto) (keys : List SrtpKeyMaterial)
    (km : Bool → SrtpKeyMaterial) (ssrc : BitVec 32) where
  stream : Bool
  packet : List UInt8
  payloadOffset : ℕ
  index : ℕ
  length_le : 12 ≤ packet.length
  offset_le : 12 ≤ payloadOffset
  ssrc_eq : packetSsrc packet = ssrc
  index_lt : index < indexBound
  sequence_eq : packetSequence packet = seqOf index
  verifies_iff : ∀ candidate ∈ keys, ∀ roc, verifies crypto candidate packet roc = true ↔
    SameMaster candidate (km stream) ∧ roc = rocOf index

section SharedSsrc

variable {crypto : Crypto} {keys : List SrtpKeyMaterial} {km : Bool → SrtpKeyMaterial}
  {ssrc : BitVec 32}

/-- The context has a master key among its candidates for the SSRC. -/
def Held (keys : List SrtpKeyMaterial) (ssrc : BitVec 32) (km : SrtpKeyMaterial) : Prop :=
  ∃ candidate ∈ keys, (candidate.ssrc = some ssrc ∨ candidate.ssrc = none) ∧ SameMaster candidate km

instance (km : SrtpKeyMaterial) : Decidable (Held keys ssrc km) :=
  inferInstanceAs (Decidable (∃ candidate ∈ keys, _))

/-- The index a packet can leave in the tracker: its own, where the context holds its key. -/
def SharedArrival.heldIndex (p : SharedArrival crypto keys km ssrc) : Option ℕ :=
  if Held keys ssrc (km p.stream) then some p.index else none

def highestHeld (ps : List (SharedArrival crypto keys km ssrc)) : Option ℕ :=
  (ps.filterMap SharedArrival.heldIndex).max?

def contextAfter (ps : List (SharedArrival crypto keys km ssrc)) : SrtpContext :=
  ps.foldl (fun ctx p => (ctx.decryptRoc crypto p.packet p.payloadOffset).1) { keys := keys }

/-- What becomes of a packet behind others: the counter that authenticated it, and the plain text. -/
def outcome (before : List (SharedArrival crypto keys km ssrc))
    (p : SharedArrival crypto keys km ssrc) : Option (BitVec 32 × Option (List UInt8)) :=
  ((contextAfter before).decryptRoc crypto p.packet p.payloadOffset).2

/-- Every packet has the outcome it has without the packets of the other stream. -/
def Unaffected (ps : List (SharedArrival crypto keys km ssrc)) : Prop :=
  Stepwise (fun before p =>
    outcome before p = outcome (before.filter (fun q => q.stream = p.stream)) p) ps

def NearHighest (before : List (SharedArrival crypto keys km ssrc))
    (p : SharedArrival crypto keys km ssrc) : Prop :=
  ∀ i ∈ p.heldIndex, Near (highestHeld before) i

def InSharedWindow (before : List (SharedArrival crypto keys km ssrc))
    (p : SharedArrival crypto keys km ssrc) : Prop :=
  ∀ i ∈ p.heldIndex, Guessed (highestHeld before) i

instance (before : List (SharedArrival crypto keys km ssrc)) (p : SharedArrival crypto keys km ssrc) :
    Decidable (NearHighest before p) :=
  inferInstanceAs (Decidable (∀ i ∈ p.heldIndex, Near (highestHeld before) i))

instance (before : List (SharedArrival crypto keys km ssrc)) (p : SharedArrival crypto keys km ssrc) :
    Decidable (InSharedWindow before p) :=
  inferInstanceAs (Decidable (∀ i ∈ p.heldIndex, Guessed (highestHeld before) i))

/-! ### One step -/

variable {ctx : SrtpContext} {h : ℕ}

theorem mem_candidates {e : ℕ × SrtpKeyMaterial} :
    e ∈ ctx.candidates ssrc ↔
      ctx.keys[e.1]? = some e.2 ∧ (e.2.ssrc = some ssrc ∨ e.2.ssrc = none) := by
  have hindexed : e ∈ (List.range ctx.keys.length).zip ctx.keys ↔ ctx.keys[e.1]? = some e.2 := by
    rw [mem_iff_getElem?]
    simp only [List.getElem?_zip_eq_some]
    constructor
    · rintro ⟨j, hj, hkey⟩
      obtain ⟨hlt, heq⟩ := List.getElem?_eq_some_iff.mp hj
      rw [getElem_range] at heq
      exact heq ▸ hkey
    · intro hkey
      have hlt := (List.getElem?_eq_some_iff.mp hkey).1
      exact ⟨e.1, List.getElem?_range hlt, hkey⟩
  rw [SrtpContext.candidates, mem_append, mem_filter, mem_filter, hindexed]
  simp only [decide_eq_true_eq]
  tauto

theorem decryptRoc_eq_tryKeys (ctx : SrtpContext) (p : SharedArrival crypto keys km ssrc) :
    ctx.decryptRoc crypto p.packet p.payloadOffset =
      SrtpContext.tryKeys crypto p.packet p.payloadOffset (ctx.candidates ssrc) ctx := by
  rw [SrtpContext.decryptRoc, p.ssrc_eq]
  split_ifs with hempty
  · have hlength := p.length_le
    have hoffset := p.offset_le
    have hkeys : ctx.keys = [] := by
      rcases hempty with hkeys | hshort | hshort
      · exact List.isEmpty_iff.mp hkeys
      · omega
      · omega
    rw [SrtpContext.candidates, hkeys]
    rfl
  · rfl

def SharedArrival.expected (p : SharedArrival crypto keys km ssrc) :
    Option (BitVec 32 × Option (List UInt8)) :=
  p.heldIndex.map (fun i => (rocOf i, plainOf crypto (km p.stream) p.packet p.payloadOffset (rocOf i)))

/-- A context holds these keys and knows their session keys. -/
structure SrtpContext.Keyed (crypto : Crypto) (keys : List SrtpKeyMaterial) (ctx : SrtpContext) :
    Prop where
  keys_eq : ctx.keys = keys
  sound : ctx.sessionCache.Sound crypto keys

theorem decryptRoc_eq (h : ctx.Keyed crypto keys) (p : SharedArrival crypto keys km ssrc) :
    let guess := guessRoc (ctx.tracker.perSsrc.get? ssrc) (seqOf p.index)
    let result := ctx.decryptRoc crypto p.packet p.payloadOffset
    result.1.Keyed crypto keys ∧
    result.2 = (if guess = rocOf p.index then p.expected else none) ∧
    result.1.tracker = if guess = rocOf p.index ∧ Held keys ssrc (km p.stream) then
      ctx.tracker.accept ssrc (rocOf p.index) (seqOf p.index) else ctx.tracker := by
  obtain ⟨rfl, hsound⟩ := h
  intro guess result
  obtain ⟨houtcome, hkeys, hsound', htracker⟩ := tryKeys_eq p.payloadOffset
    p.ssrc_eq (ctx.candidates ssrc) ctx (fun e he => (mem_candidates.mp he).1) hsound
  rw [← decryptRoc_eq_tryKeys] at houtcome hkeys hsound' htracker
  refine ⟨⟨hkeys, hsound'⟩, ?_⟩
  rw [p.sequence_eq] at houtcome htracker
  cases hfound : (ctx.candidates ssrc).find? (fun e => verifies crypto e.2 p.packet guess) with
  | some e =>
    obtain ⟨hmem, hpin⟩ := mem_candidates.mp (mem_of_find?_eq_some hfound)
    have hverifies := List.find?_some hfound
    have hkey : e.2 ∈ ctx.keys := mem_of_getElem? hmem
    obtain ⟨hsame, hguess⟩ := (p.verifies_iff e.2 hkey guess).mp hverifies
    have hroc : guessRoc (ctx.tracker.perSsrc.get? ssrc) (seqOf p.index) = rocOf p.index := hguess
    have hheld : Held ctx.keys ssrc (km p.stream) := ⟨e.2, hkey, hpin, hsame⟩
    rw [hfound] at houtcome htracker
    rw [if_pos hguess, if_pos ⟨hguess, hheld⟩]
    constructor
    · rw [SharedArrival.expected, SharedArrival.heldIndex, if_pos hheld]
      refine houtcome.trans ?_
      rw [map_some, map_some, hroc, plainOf_of_sameMaster hsame]
    · rw [htracker, hroc]
      rfl
  | none =>
    have hnot : ¬ (guess = rocOf p.index ∧ Held ctx.keys ssrc (km p.stream)) := by
      rintro ⟨hguess, candidate, hmem, hpin, hsame⟩
      obtain ⟨i, hi⟩ := mem_iff_getElem?.mp hmem
      have hverifies := (p.verifies_iff candidate hmem guess).mpr ⟨hsame, hguess⟩
      exact List.find?_eq_none.mp hfound (i, candidate) (mem_candidates.mpr ⟨hi, hpin⟩) hverifies
    rw [hfound] at houtcome htracker
    rw [if_neg hnot]
    refine ⟨houtcome.trans ?_, htracker⟩
    split_ifs with hguess
    · rw [SharedArrival.expected, SharedArrival.heldIndex, if_neg (fun hheld => hnot ⟨hguess, hheld⟩)]
      rfl
    · rfl

/-! ### Runs -/

variable {ps : List (SharedArrival crypto keys km ssrc)} {p : SharedArrival crypto keys km ssrc}

theorem highestHeld_concat :
    highestHeld (ps ++ [p]) =
      if Held keys ssrc (km p.stream) then
        some ((highestHeld ps).elim p.index (fun h => max h p.index))
      else highestHeld ps := by
  rw [highestHeld, filterMap_append]
  split_ifs with hheld
  · have hlast : [p].filterMap SharedArrival.heldIndex = [p.index] := by
      simp [SharedArrival.heldIndex, hheld]
    rw [hlast, max?_concat]
    rfl
  · have hlast : [p].filterMap SharedArrival.heldIndex = [] := by
      simp [SharedArrival.heldIndex, hheld]
    rw [hlast, append_nil]
    rfl

theorem exists_of_highestHeld (hhighest : highestHeld ps = some h) : ∃ q ∈ ps, q.index = h := by
  obtain ⟨q, hq, hindex⟩ := mem_filterMap.mp (List.max?_mem hhighest)
  rw [SharedArrival.heldIndex] at hindex
  split_ifs at hindex
  exact ⟨q, hq, some.inj hindex⟩

theorem lt_of_highestHeld (hhighest : h ∈ highestHeld ps) : h < indexBound := by
  obtain ⟨q, -, rfl⟩ := exists_of_highestHeld hhighest
  exact q.index_lt

/-- The state under the SSRC stands for the highest index of both streams. -/
structure SrtpContext.Follows (ctx : SrtpContext) (ps : List (SharedArrival crypto keys km ssrc)) :
    Prop extends ctx.Keyed crypto keys where
  tracked : ctx.tracker.perSsrc.get? ssrc = (highestHeld ps).map RocState.ofIndex

theorem SrtpContext.Follows.step (h : ctx.Follows ps) (hwindow : InSharedWindow ps p) :
    (ctx.decryptRoc crypto p.packet p.payloadOffset).2 = p.expected ∧
      (ctx.decryptRoc crypto p.packet p.payloadOffset).1.Follows (ps ++ [p]) := by
  obtain ⟨hkeyed, houtcome, htracker⟩ := decryptRoc_eq h.toKeyed p
  rw [h.tracked] at houtcome htracker
  by_cases hheld : Held keys ssrc (km p.stream)
  · have hguessed : Guessed (highestHeld ps) p.index :=
      hwindow p.index (by rw [SharedArrival.heldIndex, if_pos hheld]; rfl)
    have hguess := guessRoc_of_guessed (fun h hh => lt_of_highestHeld hh) p.index_lt hguessed
    rw [if_pos hguess] at houtcome
    rw [if_pos ⟨hguess, hheld⟩] at htracker
    refine ⟨houtcome, hkeyed, ?_⟩
    rw [htracker, SrtpRocTracker.accept, IndexMap.insert, IndexMap.get?_alter, if_pos rfl,
      h.tracked, advance_of_guessed (fun h hh => lt_of_highestHeld hh) p.index_lt hguessed,
      highestHeld_concat, if_pos hheld]
    rfl
  · have hexpected : p.expected = none := by
      rw [SharedArrival.expected, SharedArrival.heldIndex, if_neg hheld]
      rfl
    rw [hexpected, ite_self] at houtcome
    rw [if_neg (fun hboth => hheld hboth.2)] at htracker
    refine ⟨houtcome.trans hexpected.symm, hkeyed, ?_⟩
    rw [htracker, h.tracked, highestHeld_concat, if_neg hheld]

theorem contextAfter_concat :
    contextAfter (ps ++ [p]) =
      ((contextAfter ps).decryptRoc crypto p.packet p.payloadOffset).1 := by
  rw [contextAfter, foldl_append]
  rfl

theorem follows_contextAfter (hwindow : Stepwise InSharedWindow ps) :
    (contextAfter ps).Follows ps := by
  induction ps using List.reverseRecOn with
  | nil => exact ⟨⟨rfl, fun i cached hcached => by cases hcached⟩, rfl⟩
  | append_singleton ps p ih =>
    obtain ⟨hbefore, hlast⟩ := stepwise_concat.mp hwindow
    rw [contextAfter_concat]
    exact ((ih hbefore).step hlast).2

theorem outcome_eq_expected (hwindow : Stepwise InSharedWindow ps) :
    Stepwise (fun before p => outcome before p = p.expected) ps := by
  intro before p after hsplit
  subst hsplit
  exact ((follows_contextAfter hwindow.of_append).step (hwindow before p after rfl)).1

theorem outcome_alone {before after : List (SharedArrival crypto keys km ssrc)}
    (halone : Stepwise NearHighest ((before ++ p :: after).filter (fun q => q.stream = p.stream))) :
    outcome (before.filter (fun q => q.stream = p.stream)) p = p.expected := by
  have hsplit : (before ++ p :: after).filter (fun q => q.stream = p.stream) =
      before.filter (fun q => q.stream = p.stream) ++
        p :: after.filter (fun q => q.stream = p.stream) := by
    rw [filter_append, filter_cons_of_pos (by simp)]
  have hwindow : Stepwise InSharedWindow
      ((before ++ p :: after).filter (fun q => q.stream = p.stream)) := by
    intro b q a hq i hi
    exact (halone b q a hq i hi).guessed
  exact outcome_eq_expected hwindow _ p _ hsplit

/-- Two streams under one SSRC, each in order by itself, do not disturb each other as long as every
packet is in the window of the highest index of both; short of the last epoch, only then. -/
theorem shared_ssrc_unaffected
    (halone : ∀ s, Stepwise NearHighest (ps.filter (fun q => q.stream = s))) :
    (Stepwise InSharedWindow ps → Unaffected ps) ∧
    ((∀ p ∈ ps, p.index + 65536 < indexBound) → Unaffected ps → Stepwise InSharedWindow ps) := by
  constructor
  · intro hwindow before p after hsplit
    rw [outcome_eq_expected hwindow before p after hsplit]
    subst hsplit
    exact (outcome_alone (halone p.stream)).symm
  · intro hbound hunaffected
    -- along the run: what was unaffected so far left the highest index behind
    induction ps using List.reverseRecOn with
    | nil => exact stepwise_nil
    | append_singleton ps p ih =>
      obtain ⟨hbefore, hlast⟩ := stepwise_concat.mp hunaffected
      have hwindow := ih
        (fun s => by
          have hs := halone s
          rw [filter_append] at hs
          exact hs.of_append)
        (fun q hq => hbound q (mem_append_left _ hq)) hbefore
      refine stepwise_concat.mpr ⟨hwindow, ?_⟩
      intro i hi
      rw [SharedArrival.heldIndex] at hi
      split_ifs at hi with hheld
      · obtain rfl := some.inj hi
        have hfollows := follows_contextAfter hwindow
        have houtcome := (decryptRoc_eq hfollows.toKeyed p).2.1
        have hexpected : outcome ps p = p.expected := by
          rw [hlast]
          exact outcome_alone (halone p.stream)
        rw [hfollows.tracked] at houtcome
        apply guessed_of_guessRoc
        · intro h hh
          obtain ⟨q, hq, rfl⟩ := exists_of_highestHeld hh
          exact hbound q (mem_append_left _ hq)
        · exact hbound p (mem_append_right _ mem_cons_self)
        · by_contra hguess
          rw [if_neg hguess] at houtcome
          have hnone : p.expected = none := hexpected.symm.trans houtcome
          rw [SharedArrival.expected, SharedArrival.heldIndex, if_pos hheld] at hnone
          cases hnone
      · cases hi

end SharedSsrc

/-! ### A second key beside the one of RFC 3711's test vectors -/

def otherKey : SrtpKeyMaterial where
  suite := .aesCm128HmacSha1_80
  masterKey := bigEndianBytes 16 0x000102030405060708090a0b0c0d0e0f
  masterSalt := bigEndianBytes 14 0x000102030405060708090a0b0c0d

def otherAuthKey : List UInt8 := bigEndianBytes 20 0x3e76ba34c6ff1e8b756b0a3b7544501a0a3fc1aa

/-- The cipher's blocks in the derivation of the session keys of `otherKey`. -/
def otherBlocks : List ((List UInt8 × List UInt8) × List UInt8) :=
  [(0x000102030405060708090a0b0c0d0000, 0x0ccb114ee722860a4f0ab5ae99663e27),
    (0x000102030405060508090a0b0c0d0000, 0x61d75d4b7d5d73eb89cc916964246f58),
    (0x000102030405060608090a0b0c0d0000, 0x3e76ba34c6ff1e8b756b0a3b7544501a),
    (0x000102030405060608090a0b0c0d0001, 0x0a3fc1aa70d9dfbbaa32b797e00aa78f)].map
    (fun e => ((otherKey.masterKey, bigEndianBytes 16 e.1), bigEndianBytes 16 e.2))

def earlyHeader : List UInt8 := bigEndianBytes 12 0x80000005000000000000cafe

def lateHeader : List UInt8 := bigEndianBytes 12 0x8000ea60000000000000cafe

/-- The tags of two headers in epoch 0, under one key and the other. -/
def sharedTags : List SampleTag :=
  [⟨rfcAuthKey, earlyHeader, 0, bigEndianBytes 20 0xcd9ef02f38e6701b39a8a3477effbb21e2698051⟩,
    ⟨otherAuthKey, earlyHeader, 0, bigEndianBytes 20 0xcb82ba0193f95c9f8f3ae7668cb3d8e674924ec6⟩,
    ⟨rfcAuthKey, lateHeader, 0, bigEndianBytes 20 0xf3575ac01808b33d4c3d04e7c9efc3a597e8dc92⟩,
    ⟨otherAuthKey, lateHeader, 0, bigEndianBytes 20 0xf10abf70c19b54010047212ca3db214fc5b68591⟩]

def sharedCrypto : Crypto := sampleCrypto (rfcBlocks ++ otherBlocks) sharedTags

def sharedKeys : List SrtpKeyMaterial := [rfcKey, otherKey]

def streamKey (stream : Bool) : SrtpKeyMaterial := if stream then otherKey else rfcKey

variable {km : SrtpKeyMaterial}

theorem deriveSessionKey_shared (hkm : km ∈ sharedKeys) :
    ∃ authKey, deriveSessionKey sharedCrypto km.masterKey km.masterSalt srtpLabelAuth
      srtpAuthKeyLen = .ok authKey := by
  simp only [sharedKeys, mem_cons, not_mem_nil, or_false] at hkm
  rcases hkm with rfl | rfl
  · exact ⟨rfcAuthKey, by decide +kernel⟩
  · exact ⟨otherAuthKey, by decide +kernel⟩

theorem verifies_shared_of_ne (hkm : km ∈ sharedKeys) {header tag : List UInt8}
    (hlength : header.length = 12) (htag : tag.length = 10) {roc : BitVec 32} (hroc : roc ≠ 0) :
    verifies sharedCrypto km (header ++ tag) roc = false := by
  obtain ⟨authKey, hkey⟩ := deriveSessionKey_shared hkm
  have hsuites : ∀ km ∈ sharedKeys, authTagLen km.suite = 10 := by decide +kernel
  have hheaders : ∀ t ∈ sharedTags, t.header.length = header.length := by
    rw [hlength]
    decide +kernel
  have hzero : ∀ t ∈ sharedTags, t.roc = 0 := by decide +kernel
  have hfind : sharedTags.find? (fun t => t.authKey = authKey ∧ t.header = header ∧ t.roc = roc) =
      none := by
    rw [List.find?_eq_none]
    intro t ht hfound
    have hsame := (of_decide_eq_true hfound).2.2
    exact hroc (hsame.symm.trans (hzero t ht))
  have hne : tag ≠ [] := by
    rintro rfl
    cases htag
  rw [verifies, sharedCrypto, tagVerifies_sample hkey hheaders (by rw [htag, hsuites km hkm]), hfind]
  simp [hne]

def sharedPacket (stream : Bool) (header tag : List UInt8) (index : ℕ)
    (hlength : header.length = 12) (htag : tag.length = 10) (hindex : index < 65536)
    (hssrc : packetSsrc (header ++ tag) = 0xCAFE)
    (hsequence : packetSequence (header ++ tag) = seqOf index)
    (htags : ∀ km ∈ sharedKeys, verifies sharedCrypto km (header ++ tag) 0 = true ↔
      SameMaster km (streamKey stream)) :
    SharedArrival sharedCrypto sharedKeys streamKey 0xCAFE where
  stream := stream
  packet := header ++ tag
  payloadOffset := 12
  index := index
  length_le := by
    rw [length_append, hlength]
    omega
  offset_le := le_refl 12
  ssrc_eq := hssrc
  index_lt := hindex.trans (by decide)
  sequence_eq := hsequence
  verifies_iff := by
    intro km hkm roc
    have hzero : rocOf index = 0 := by
      rw [rocOf, Nat.div_eq_of_lt hindex]
      rfl
    rw [hzero]
    by_cases hroc : roc = 0
    · rw [hroc, htags km hkm]
      simp
    · rw [verifies_shared_of_ne hkm hlength htag hroc]
      exact iff_of_false Bool.false_ne_true (fun h => hroc h.2)

def earlyPacket : SharedArrival sharedCrypto sharedKeys streamKey 0xCAFE :=
  sharedPacket false earlyHeader (bigEndianBytes 10 0xcd9ef02f38e6701b39a8) 5 (by decide +kernel)
    (by decide +kernel) (by decide) (by decide +kernel) (by decide +kernel) (by decide +kernel)

def otherEarlyPacket : SharedArrival sharedCrypto sharedKeys streamKey 0xCAFE :=
  sharedPacket true earlyHeader (bigEndianBytes 10 0xcb82ba0193f95c9f8f3a) 5 (by decide +kernel)
    (by decide +kernel) (by decide) (by decide +kernel) (by decide +kernel) (by decide +kernel)

def otherLatePacket : SharedArrival sharedCrypto sharedKeys streamKey 0xCAFE :=
  sharedPacket true lateHeader (bigEndianBytes 10 0xf10abf70c19b54010047) 60000 (by decide +kernel)
    (by decide +kernel) (by decide) (by decide +kernel) (by decide +kernel) (by decide +kernel)

/-- Two streams that start at one sequence number. -/
theorem shared_ssrc_unaffected_side_by_side : let ps := [earlyPacket, otherEarlyPacket, earlyPacket]
    (∀ s, Stepwise NearHighest (ps.filter (fun q => q.stream = s))) ∧
    Stepwise InSharedWindow ps ∧ Unaffected ps := by
  intro ps
  have halone : ∀ s, Stepwise NearHighest (ps.filter (fun q => q.stream = s)) := by
    decide +kernel
  have hwindow : Stepwise InSharedWindow ps := by decide +kernel
  exact ⟨halone, hwindow, (shared_ssrc_unaffected halone).1 hwindow⟩

/-- A stream that starts more than half an epoch above another one is not authenticated. -/
theorem other_stream_disturbs : let ps := [earlyPacket, otherLatePacket]
    (∀ s, Stepwise NearHighest (ps.filter (fun q => q.stream = s))) ∧
    outcome [earlyPacket] otherLatePacket = none ∧
    outcome [] otherLatePacket = some (0, some lateHeader) ∧ ¬ Unaffected ps := by
  intro ps
  have hshared : outcome [earlyPacket] otherLatePacket = none := by decide +kernel
  have halone : outcome [] otherLatePacket = some (0, some lateHeader) := by decide +kernel
  refine ⟨by decide +kernel, hshared, halone, ?_⟩
  intro hunaffected
  have hlast : outcome [earlyPacket] otherLatePacket = outcome [] otherLatePacket :=
    hunaffected [earlyPacket] otherLatePacket [] rfl
  rw [hshared, halone] at hlast
  cases hlast

end Sipnab
