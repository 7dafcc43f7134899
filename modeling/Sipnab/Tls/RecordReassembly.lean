import Sipnab.Lib.IndexMap
import Sipnab.Lib.PrefixCode
import Sipnab.Tls.Session

/-!
# Records that arrive in pieces

A direction of a TLS stream is handed on in chunks that know nothing of records. The records at the
front of what has arrived are taken, and the rest is held, for a bounded number of directions, until
the next chunk. The records of a stream are the same for every way of cutting it. What is held is
the rest behind them, also where the bytes are not TLS.
-/

namespace Sipnab.Tls

open List IndexMap

/-! ## The record layer -/

def maxTlsRecordLength : ℕ := 18432

def TlsContentType.fromByte (b : UInt8) : TlsContentType :=
  if b = 20 then .changeCipherSpec
  else if b = 21 then .alert
  else if b = 22 then .handshake
  else if b = 23 then .applicationData
  else .unknown b

def TlsContentType.isValid (b : UInt8) : Bool := 20 ≤ b && b ≤ 23

def TlsVersion.fromU16 (v : UInt16) : TlsVersion :=
  if v = 0x0301 then .tls10
  else if v = 0x0302 then .tls11
  else if v = 0x0303 then .tls12
  else if v = 0x0304 then .tls13
  else .unknown v

def TlsVersion.isPlausible (v : UInt16) : Bool := 0x0300 ≤ v && v ≤ 0x0304

def fromBeBytes (hi lo : UInt8) : UInt16 := UInt16.ofNat (ofBeBytes [hi, lo])

/-- The record at the front of the data, when all of it is there. -/
def recordAt : Bytes → Option TlsRecord
  | t :: vHi :: vLo :: lHi :: lLo :: rest =>
    let version := fromBeBytes vHi vLo
    let length := fromBeBytes lHi lLo
    if ¬ TlsContentType.isValid t then none
    else if ¬ TlsVersion.isPlausible version then none
    else if maxTlsRecordLength < length.toNat then none
    else if length = 0 ∧ 20 ≤ t ∧ t ≤ 22 then none
    else if rest.length < length.toNat then none
    else some ⟨.fromByte t, .fromU16 version, length, rest.take length.toNat⟩
  | _ => none

def tlsRecordHeaderLen : ℕ := 5

/-- The walk over the records. A record takes a byte, so that there are no more rounds than bytes. -/
def parseLoop : ℕ → ℕ → Bytes → List TlsRecord × ℕ
  | 0, offset, _ => ([], offset)
  | rounds + 1, offset, rest =>
    match recordAt rest with
    | none => ([], offset)
    | some record =>
      let size := tlsRecordHeaderLen + record.length.toNat
      let (records, consumed) := parseLoop rounds (offset + size) (rest.drop size)
      (record :: records, consumed)

def parseTlsRecordsWithConsumed (data : Bytes) : List TlsRecord × ℕ := parseLoop data.length 0 data

/-! ## The reassembler -/

abbrev Direction := SocketAddr × SocketAddr

structure TlsRecordReassembler where
  leftover : IndexMap Direction Bytes
  maxSessions : ℕ

namespace TlsRecordReassembler

def new (maxSessions : ℕ) : TlsRecordReassembler := ⟨.empty, maxSessions⟩

def held (r : TlsRecordReassembler) (key : Direction) : Bytes := (r.leftover.get? key).getD []

def insert (r : TlsRecordReassembler) (key : Direction) (chunk : Bytes) :
    TlsRecordReassembler × List TlsRecord :=
  let buf := r.held key ++ chunk
  let leftover := r.leftover.filter (fun e => e.1 ≠ key)
  let (records, consumed) := parseTlsRecordsWithConsumed buf
  if consumed < buf.length then
    let leftover :=
      if leftover.get? key = none ∧ r.maxSessions ≤ leftover.length then leftover.dropFirst 1
      else leftover
    (⟨leftover.insert key (buf.drop consumed), r.maxSessions⟩, records)
  else (⟨leftover, r.maxSessions⟩, records)

/-- The calls one after another, with the records that they return. -/
def run (r : TlsRecordReassembler) :
    List (Direction × Bytes) → TlsRecordReassembler × List (Direction × TlsRecord)
  | [] => (r, [])
  | (key, chunk) :: rest =>
    let (r, records) := r.insert key chunk
    let (r, out) := run r rest
    (r, records.map (Prod.mk key) ++ out)

end TlsRecordReassembler

/-! ## Well-formed records -/

structure WireRecord where
  contentType : UInt8
  version : UInt16
  payload : Bytes
  isValid : TlsContentType.isValid contentType = true
  isPlausible : TlsVersion.isPlausible version = true
  length_le : payload.length ≤ maxTlsRecordLength
  /-- Only application data may be empty. -/
  ne_nil : 20 ≤ contentType → contentType ≤ 22 → payload ≠ []

namespace WireRecord

def bytes (w : WireRecord) : Bytes :=
  w.contentType :: (toBeBytes 2 w.version.toNat ++ (toBeBytes 2 w.payload.length ++ w.payload))

def parsed (w : WireRecord) : TlsRecord :=
  ⟨.fromByte w.contentType, .fromU16 w.version, UInt16.ofNat w.payload.length, w.payload⟩

end WireRecord

variable {data : Bytes} {key : Direction} {events : List (Direction × Bytes)} {maxSessions : ℕ}
  (hi lo : UInt8)

theorem toNat_fromBeBytes : (fromBeBytes hi lo).toNat = ofBeBytes [hi, lo] := by
  have hlt : ofBeBytes [hi, lo] < 256 ^ 2 := ofBeBytes_lt [hi, lo]
  exact UInt16.toNat_ofNat_of_lt' hlt

theorem toBeBytes_fromBeBytes : toBeBytes 2 (fromBeBytes hi lo).toNat = [hi, lo] := by
  rw [toNat_fromBeBytes]
  exact ofBeBytes_inj rfl (ofBeBytes_toBeBytes (ofBeBytes_lt [hi, lo]))

theorem fromBeBytes_of_toBeBytes {hi lo : UInt8} {n : ℕ} (hn : n < 256 ^ 2)
    (h : toBeBytes 2 n = [hi, lo]) : fromBeBytes hi lo = UInt16.ofNat n := by
  rw [fromBeBytes, ← h, ofBeBytes_toBeBytes hn]

namespace WireRecord

variable {w w' : WireRecord} {data : Bytes}

theorem length_lt (w : WireRecord) : w.payload.length < 256 ^ 2 :=
  w.length_le.trans_lt (by decide)

theorem length_bytes (w : WireRecord) : w.bytes.length = tlsRecordHeaderLen + w.payload.length := by
  simp only [bytes, length_cons, length_append, length_toBeBytes, tlsRecordHeaderLen]
  omega

theorem exists_of_isPrefix (h : w.bytes <+: data) : ∃ vHi vLo lHi lLo rest,
    data = w.contentType :: vHi :: vLo :: lHi :: lLo :: rest ∧ fromBeBytes vHi vLo = w.version
      ∧ fromBeBytes lHi lLo = UInt16.ofNat w.payload.length ∧ w.payload <+: rest := by
  obtain ⟨more, rfl⟩ := h
  refine ⟨_, _, _, _, w.payload ++ more, rfl, ?_, ?_, prefix_append _ _⟩
  · rw [fromBeBytes_of_toBeBytes w.version.toNat_lt rfl]
    exact UInt16.ofNat_toNat
  · exact fromBeBytes_of_toBeBytes w.length_lt rfl

theorem toNat_length (w : WireRecord) : (UInt16.ofNat w.payload.length).toNat = w.payload.length :=
  UInt16.toNat_ofNat_of_lt' w.length_lt

end WireRecord

theorem prefixCode_bytes : PrefixCode WireRecord.bytes where
  ne_nil w h := by cases h
  inj {data a b} ha hb := by
    obtain ⟨vHi, vLo, lHi, lLo, rest, rfl, hversion, hlength, hpayload⟩ :=
      WireRecord.exists_of_isPrefix ha
    obtain ⟨vHi', vLo', lHi', lLo', rest', heq, hversion', hlength', hpayload'⟩ :=
      WireRecord.exists_of_isPrefix hb
    injection heq with htype heq
    injection heq with h1 heq
    injection heq with h2 heq
    injection heq with h3 heq
    injection heq with h4 heq
    subst h1 h2 h3 h4 heq
    have hlen : a.payload.length = b.payload.length := by
      rw [← a.toNat_length, ← hlength, hlength', b.toNat_length]
    have hsame : a.payload = b.payload :=
      (prefix_of_prefix_length_le hpayload hpayload' hlen.le).eq_of_length hlen
    obtain ⟨ta, va, pa⟩ := a
    obtain ⟨tb, vb, pb⟩ := b
    obtain rfl : ta = tb := htype
    obtain rfl : va = vb := hversion.symm.trans hversion'
    obtain rfl : pa = pb := hsame
    rfl

theorem recordAt_eq_some_iff {record : TlsRecord} :
    recordAt data = some record ↔ ∃ w : WireRecord, w.bytes <+: data ∧ w.parsed = record := by
  constructor
  · intro h
    unfold recordAt at h
    split at h
    case h_2 => cases h
    case h_1 t vHi vLo lHi lLo rest =>
    dsimp only at h
    split at h
    case isTrue => cases h
    case isFalse hvalid =>
    split at h
    case isTrue => cases h
    case isFalse hplausible =>
    split at h
    case isTrue => cases h
    case isFalse hshort =>
    split at h
    case isTrue => cases h
    case isFalse hempty =>
    split at h
    case isTrue => cases h
    case isFalse hthere =>
    have hlen : (rest.take (fromBeBytes lHi lLo).toNat).length = (fromBeBytes lHi lLo).toNat :=
      length_take_of_le (Nat.not_lt.mp hthere)
    refine ⟨⟨t, fromBeBytes vHi vLo, rest.take (fromBeBytes lHi lLo).toNat, not_not.mp hvalid,
      not_not.mp hplausible, ?_, ?_⟩, ?_, ?_⟩
    · rw [hlen]
      exact Nat.not_lt.mp hshort
    · intro hlow hhigh hnil
      rw [hnil] at hlen
      exact hempty ⟨UInt16.toNat_inj.mp hlen.symm, hlow, hhigh⟩
    · rw [WireRecord.bytes]
      dsimp only
      rw [hlen, toBeBytes_fromBeBytes, toBeBytes_fromBeBytes]
      exact ⟨rest.drop (fromBeBytes lHi lLo).toNat, by simp⟩
    · rw [← Option.some.inj h, WireRecord.parsed]
      dsimp only
      rw [hlen, UInt16.ofNat_toNat]
  · rintro ⟨w, hprefix, rfl⟩
    obtain ⟨vHi, vLo, lHi, lLo, rest, rfl, hversion, hlength, hpayload⟩ :=
      WireRecord.exists_of_isPrefix hprefix
    have hnonempty : ¬ (UInt16.ofNat w.payload.length = 0
        ∧ 20 ≤ w.contentType ∧ w.contentType ≤ 22) := by
      rintro ⟨hzero, hlow, hhigh⟩
      refine w.ne_nil hlow hhigh (length_eq_zero_iff.mp ?_)
      rw [← w.toNat_length, hzero]
      rfl
    rw [recordAt, hversion, hlength, if_neg (not_not.mpr w.isValid), if_neg (not_not.mpr w.isPlausible),
      w.toNat_length, if_neg (Nat.not_lt.mpr w.length_le), if_neg hnonempty,
      if_neg (Nat.not_lt.mpr hpayload.length_le), ← prefix_iff_eq_take.mp hpayload]
    rfl

theorem recordAt_eq_none_iff : recordAt data = none ↔ ∀ w : WireRecord, ¬ w.bytes <+: data := by
  rw [Option.eq_none_iff_forall_ne_some]
  exact ⟨fun h w hw => h w.parsed (recordAt_eq_some_iff.mpr ⟨w, hw, rfl⟩), fun h record hrecord => by
    obtain ⟨w, hw, -⟩ := recordAt_eq_some_iff.mp hrecord
    exact h w hw⟩

theorem parseLoop_spec {rounds : ℕ} : ∀ {data : Bytes} (offset : ℕ), data.length ≤ rounds →
    ∃ ws n, parseLoop rounds offset data = (ws.map WireRecord.parsed, offset + n)
      ∧ Splits WireRecord.bytes data ws (data.drop n) := by
  induction rounds with
  | zero =>
    intro data offset hrounds
    obtain rfl := length_eq_zero_iff.mp (Nat.le_zero.mp hrounds)
    exact ⟨[], 0, rfl, prefixCode_bytes.splits_flatten []⟩
  | succ rounds ih =>
    intro data offset hrounds
    rw [parseLoop]
    cases hrecord : recordAt data with
    | none => exact ⟨[], 0, rfl, rfl, recordAt_eq_none_iff.mp hrecord⟩
    | some record =>
      obtain ⟨w, ⟨rest, rfl⟩, rfl⟩ := recordAt_eq_some_iff.mp hrecord
      have hsize : tlsRecordHeaderLen + w.parsed.length.toNat = w.bytes.length := by
        rw [w.length_bytes, ← w.toNat_length]
        rfl
      have hpos : 0 < w.bytes.length := length_pos_iff.mpr (prefixCode_bytes.ne_nil w)
      rw [length_append] at hrounds
      obtain ⟨ws, n, hloop, hsplits⟩ := ih (offset + w.bytes.length) (show rest.length ≤ rounds by omega)
      refine ⟨w :: ws, w.bytes.length + n, ?_, ?_⟩
      · dsimp only
        rw [hsize, drop_left, hloop, Nat.add_assoc]
        rfl
      · rw [← drop_drop, drop_left]
        exact hsplits.cons w

theorem parseTlsRecordsWithConsumed_spec (data : Bytes) :
    ∃ ws n, parseTlsRecordsWithConsumed data = (ws.map WireRecord.parsed, n)
      ∧ Splits WireRecord.bytes data ws (data.drop n) := by
  obtain ⟨ws, n, hloop, hsplits⟩ := parseLoop_spec 0 (Nat.le_refl data.length)
  rw [Nat.zero_add] at hloop
  exact ⟨ws, n, hloop, hsplits⟩

/-! ## What is held -/

/-- Bytes that wait behind the records taken: there are some, and no record begins them. -/
def Waiting (tail : Bytes) : Prop := tail ≠ [] ∧ ∀ w : WireRecord, ¬ w.bytes <+: tail

namespace TlsRecordReassembler

variable {r : TlsRecordReassembler} {key other : Direction} {chunk : Bytes}

/-- The tails of the other directions, with room for another one. -/
def others (r : TlsRecordReassembler) (key : Direction) : IndexMap Direction Bytes :=
  let leftover := r.leftover.filter (fun e => e.1 ≠ key)
  if leftover.get? key = none ∧ r.maxSessions ≤ leftover.length then leftover.dropFirst 1
  else leftover

theorem insert_eq {records : List TlsRecord} {n : ℕ}
    (h : parseTlsRecordsWithConsumed (r.held key ++ chunk) = (records, n)) :
    r.insert key chunk
      = if n < (r.held key ++ chunk).length then
          (⟨(r.others key).insert key ((r.held key ++ chunk).drop n), r.maxSessions⟩, records)
        else (⟨r.leftover.filter (fun e => e.1 ≠ key), r.maxSessions⟩, records) := by
  unfold insert
  dsimp only
  rw [h]
  rfl

theorem get?_filter_ne (m : IndexMap Direction Bytes) (key other : Direction) :
    (m.filter (fun e => e.1 ≠ key)).get? other = if other = key then none else m.get? other := by
  rw [get?_filter_key m (fun k => decide (k ≠ key)) other]
  by_cases h : other = key <;> simp [h]

/-- One call: what the direction held and the chunk are the records returned and what it holds
then. -/
theorem insert_spec (r : TlsRecordReassembler) (key : Direction) (chunk : Bytes) :
    ∃ ws, (r.insert key chunk).2 = ws.map WireRecord.parsed
      ∧ Splits WireRecord.bytes (r.held key ++ chunk) ws ((r.insert key chunk).1.held key)
      ∧ ∀ tail, (r.insert key chunk).1.leftover.get? key = some tail → Waiting tail := by
  obtain ⟨ws, n, hparse, hsplits⟩ := parseTlsRecordsWithConsumed_spec (r.held key ++ chunk)
  refine ⟨ws, ?_⟩
  rw [insert_eq hparse]
  by_cases hleft : n < (r.held key ++ chunk).length
  · generalize r.held key ++ chunk = buf at hsplits hleft ⊢
    have hget : ((r.others key).insert key (buf.drop n)).get? key = some (buf.drop n) := by
      rw [get?_insert, if_pos rfl]
    have hne : buf.drop n ≠ [] := by
      rw [← length_pos_iff, length_drop]
      omega
    rw [if_pos hleft, held, hget]
    refine ⟨rfl, hsplits, fun tail htail => ?_⟩
    obtain rfl := Option.some.inj htail
    exact ⟨hne, hsplits.stuck⟩
  · have hget : (r.leftover.filter (fun e => e.1 ≠ key)).get? key = none := by
      rw [get?_filter_ne, if_pos rfl]
    rw [drop_eq_nil_of_le (Nat.not_lt.mp hleft)] at hsplits
    generalize r.held key ++ chunk = buf at hsplits hleft ⊢
    rw [if_neg hleft, held, hget]
    exact ⟨rfl, hsplits, fun tail htail => (by cases htail)⟩

theorem get?_of_insert (hother : other ≠ key) {tail : Bytes}
    (h : (r.insert key chunk).1.leftover.get? other = some tail) :
    r.leftover.get? other = some tail := by
  obtain ⟨ws, n, hparse, -⟩ := parseTlsRecordsWithConsumed_spec (r.held key ++ chunk)
  have hfilter : ∀ {t}, (r.leftover.filter (fun e => e.1 ≠ key)).get? other = some t →
      r.leftover.get? other = some t := fun ht => get?_of_get?_filter ht
  rw [insert_eq hparse] at h
  split at h
  case isFalse => exact hfilter h
  case isTrue =>
    rw [get?_insert, if_neg hother, others] at h
    split at h
    · exact hfilter (get?_of_get?_dropFirst h)
    · exact hfilter h

theorem waiting_run (events : List (Direction × Bytes)) {r : TlsRecordReassembler}
    (h : ∀ key tail, r.leftover.get? key = some tail → Waiting tail) :
    ∀ key tail, (r.run events).1.leftover.get? key = some tail → Waiting tail := by
  induction events generalizing r with
  | nil => exact h
  | cons event events ih =>
    obtain ⟨key, chunk⟩ := event
    rw [run]
    refine ih (fun other tail htail => ?_)
    obtain ⟨ws, -, -, hwaiting⟩ := insert_spec r key chunk
    by_cases hother : other = key
    · subst hother
      exact hwaiting tail htail
    · exact h other tail (get?_of_insert hother htail)

/-! ## Fewer directions than the cap -/

/-- Only these directions hold a tail, and there is room for them all. -/
structure Room (r : TlsRecordReassembler) (directions : Finset Direction) : Prop where
  keys : ∀ key ∈ r.leftover.keys, key ∈ directions
  card : ∀ key ∈ directions, (directions.erase key).card < r.maxSessions

theorem mem_keys_iff {m : IndexMap Direction Bytes} : key ∈ m.keys ↔ m.get? key ≠ none := by
  rw [ne_eq, get?_eq_none_iff, not_not]

variable {directions : Finset Direction}

theorem Room.others_eq (h : Room r directions) (hkey : key ∈ directions) :
    r.others key = r.leftover.filter (fun e => e.1 ≠ key) := by
  have hsub : (r.leftover.filter (fun e => e.1 ≠ key)).keys.toFinset ⊆ directions.erase key := by
    intro k hk
    have hget := mem_keys_iff.mp (List.mem_toFinset.mp hk)
    rw [get?_filter_ne] at hget
    by_cases hsame : k = key
    · rw [if_pos hsame] at hget
      exact absurd rfl hget
    · rw [if_neg hsame] at hget
      exact Finset.mem_erase.mpr ⟨hsame, h.keys k (mem_keys_iff.mpr hget)⟩
  have hcard := Finset.card_le_card hsub
  rw [toFinset_card_of_nodup (keys_nodup _), IndexMap.keys, length_map] at hcard
  have hfew : ¬ r.maxSessions ≤ (r.leftover.filter (fun e => e.1 ≠ key)).length :=
    Nat.not_le.mpr (hcard.trans_lt (h.card key hkey))
  rw [others]
  exact if_neg (fun hfull => hfew hfull.2)

theorem Room.insert (h : Room r directions) (hkey : key ∈ directions) (chunk : Bytes) :
    Room (r.insert key chunk).1 directions
      ∧ ∀ other, other ≠ key →
        (r.insert key chunk).1.leftover.get? other = r.leftover.get? other := by
  obtain ⟨ws, n, hparse, -⟩ := parseTlsRecordsWithConsumed_spec (r.held key ++ chunk)
  have hothers : ∀ other, other ≠ key →
      (r.insert key chunk).1.leftover.get? other = r.leftover.get? other := by
    intro other hother
    rw [insert_eq hparse]
    split
    · dsimp only
      rw [get?_insert, if_neg hother, h.others_eq hkey, get?_filter_ne, if_neg hother]
    · dsimp only
      rw [get?_filter_ne, if_neg hother]
  have hmax : (r.insert key chunk).1.maxSessions = r.maxSessions := by
    rw [insert_eq hparse]
    split <;> rfl
  refine ⟨⟨fun k hk => ?_, fun k hk => hmax ▸ h.card k hk⟩, hothers⟩
  by_cases hsame : k = key
  · exact hsame ▸ hkey
  · refine h.keys k (mem_keys_iff.mpr ?_)
    rw [← hothers k hsame]
    exact mem_keys_iff.mp hk

end TlsRecordReassembler

def streamOf (events : List (Direction × Bytes)) (key : Direction) : Bytes :=
  ((events.filter (fun e => e.1 = key)).map Prod.snd).flatten

def returned (out : List (Direction × TlsRecord)) (key : Direction) : List TlsRecord :=
  (out.filter (fun e => e.1 = key)).map Prod.snd

theorem returned_append (records : List TlsRecord) (out : List (Direction × TlsRecord))
    (key other : Direction) : returned (records.map (Prod.mk key) ++ out) other
      = if key = other then records ++ returned out other else returned out other := by
  unfold returned
  rw [filter_append, map_append]
  split
  case isTrue h =>
    rw [filter_eq_self.mpr (by simp [h]), List.map_map]
    simp
  case isFalse h =>
    rw [filter_eq_nil_iff.mpr (by simp [h])]
    rfl

theorem streamOf_cons (key other : Direction) (chunk : Bytes) (events : List (Direction × Bytes)) :
    streamOf ((key, chunk) :: events) other
      = if key = other then chunk ++ streamOf events other else streamOf events other := by
  unfold streamOf
  rw [filter_cons]
  by_cases h : key = other <;> simp [h]

namespace TlsRecordReassembler

/-- Any calls among fewer directions than the cap: what a direction held and its bytes are its
records and what it holds then. -/
theorem run_spec {directions : Finset Direction} (events : List (Direction × Bytes))
    {r : TlsRecordReassembler} (hroom : Room r directions)
    (hevents : ∀ e ∈ events, e.1 ∈ directions) {key : Direction}
    (hstuck : ∀ w : WireRecord, ¬ w.bytes <+: r.held key) :
    ∃ ws, returned (r.run events).2 key = ws.map WireRecord.parsed
      ∧ Splits WireRecord.bytes (r.held key ++ streamOf events key) ws
          ((r.run events).1.held key) := by
  induction events generalizing r with
  | nil => exact ⟨[], rfl, (append_nil _), hstuck⟩
  | cons event events ih =>
    obtain ⟨other, chunk⟩ := event
    have hother : other ∈ directions := hevents _ mem_cons_self
    obtain ⟨hroom', hothers⟩ := hroom.insert hother chunk
    rw [run]
    rw [returned_append, streamOf_cons]
    by_cases hsame : other = key
    · subst hsame
      obtain ⟨ws, hrecords, hsplits, -⟩ := insert_spec r other chunk
      obtain ⟨ws', hreturned, hsplits'⟩ :=
        ih hroom' (fun e he => hevents e (mem_cons_of_mem _ he)) hsplits.stuck
      refine ⟨ws ++ ws', ?_, ?_⟩
      · rw [if_pos rfl, hreturned, hrecords, map_append]
      · rw [if_pos rfl, ← append_assoc]
        exact hsplits.append hsplits'
    · have hheld : (r.insert other chunk).1.held key = r.held key :=
        congrArg (Option.getD · []) (hothers key (Ne.symm hsame))
      rw [if_neg hsame, if_neg hsame, ← hheld]
      exact ih hroom' (fun e he => hevents e (mem_cons_of_mem _ he)) (hheld ▸ hstuck)

end TlsRecordReassembler

def otherDirections (events : List (Direction × Bytes)) (key : Direction) : Finset Direction :=
  (events.map Prod.fst).toFinset.erase key

theorem room_new (h : (otherDirections events key).card < maxSessions) :
    (TlsRecordReassembler.new maxSessions).Room (events.map Prod.fst).toFinset where
  keys k hk := by cases hk
  card k hk := by
    rw [Finset.card_erase_of_mem hk]
    exact Finset.pred_card_le_card_erase.trans_lt h

theorem splits_run (h : (otherDirections events key).card < maxSessions) :
    ∃ ws, returned ((TlsRecordReassembler.new maxSessions).run events).2 key
        = ws.map WireRecord.parsed
      ∧ Splits WireRecord.bytes (streamOf events key) ws
          (((TlsRecordReassembler.new maxSessions).run events).1.held key) :=
  TlsRecordReassembler.run_spec events (room_new h)
    (fun _ he => List.mem_toFinset.mpr (List.mem_map_of_mem he))
    (fun w hw => prefixCode_bytes.ne_nil w (prefix_nil.mp hw))

/-- Among fewer other directions than the cap, the calls return exactly the records of a stream, in
order, for every way of cutting it, and of any stream the records at its front. What is held is never
empty: it is a proper part of one record, or bytes that no record begins with and that begin no
record. -/
theorem records_of_every_cutting (maxSessions : ℕ) (events : List (Direction × Bytes)) :
    (∀ key, (otherDirections events key).card < maxSessions → ∀ ws : List WireRecord,
      streamOf events key = (ws.map WireRecord.bytes).flatten →
      returned ((TlsRecordReassembler.new maxSessions).run events).2 key = ws.map WireRecord.parsed)
    ∧ (∀ key, (otherDirections events key).card < maxSessions → ∃ ws : List WireRecord,
      returned ((TlsRecordReassembler.new maxSessions).run events).2 key = ws.map WireRecord.parsed
        ∧ streamOf events key = (ws.map WireRecord.bytes).flatten
          ++ ((TlsRecordReassembler.new maxSessions).run events).1.held key)
    ∧ ∀ key tail, ((TlsRecordReassembler.new maxSessions).run events).1.leftover.get? key
        = some tail → tail ≠ [] ∧ ((∃ w : WireRecord, tail <+: w.bytes ∧ tail ≠ w.bytes)
          ∨ ∀ w : WireRecord, ¬ w.bytes <+: tail ∧ ¬ tail <+: w.bytes) := by
  refine ⟨fun key hfew ws hstream => ?_, fun key hfew => ?_, fun key tail htail => ?_⟩
  · obtain ⟨ws', hreturned, hsplits⟩ := splits_run hfew
    rw [hstream] at hsplits
    rw [hreturned, (hsplits.unique prefixCode_bytes (prefixCode_bytes.splits_flatten ws)).1]
  · obtain ⟨ws, hreturned, hsplits⟩ := splits_run hfew
    exact ⟨ws, hreturned, hsplits.eq⟩
  · obtain ⟨hne, hstuck⟩ := TlsRecordReassembler.waiting_run events
      (fun key tail h => (by cases h)) key tail htail
    refine ⟨hne, ?_⟩
    by_cases hpart : ∃ w : WireRecord, tail <+: w.bytes
    · obtain ⟨w, hw⟩ := hpart
      refine .inl ⟨w, hw, fun heq => hstuck w ?_⟩
      rw [heq]
    · exact .inr (fun w => ⟨hstuck w, fun hw => hpart ⟨w, hw⟩⟩)

def relayDirection : Direction := ((.v4 0x0a000001, 40000), (.v4 0x0a000002, 5061))

/-- A record of one byte, and behind it the start of an HTTP request. -/
def recordThenRequest : Bytes := [23, 3, 3, 0, 1, 0, 71, 69, 84, 32, 47]

/-- The request is held although it can become no record. -/
theorem request_held_behind_record :
    ((TlsRecordReassembler.new 16).run [(relayDirection, recordThenRequest)]).1.leftover.get?
        relayDirection = some [71, 69, 84, 32, 47]
      ∧ ¬ ∃ w : WireRecord, [71, 69, 84, 32, 47] <+: w.bytes ∧ [71, 69, 84, 32, 47] ≠ w.bytes := by
  refine ⟨by decide, ?_⟩
  rintro ⟨w, hw, -⟩
  have htype : w.contentType = 71 := ((cons_prefix_cons.mp hw).1).symm
  have hvalid := w.isValid
  rw [htype] at hvalid
  revert hvalid
  decide

/-- A record cut inside its header, with another direction between the pieces. -/
theorem record_cut_in_header :
    returned ((TlsRecordReassembler.new 16).run [(relayDirection, [23, 3]),
      (relayDirection.swap, [22]), (relayDirection, [3, 0, 1, 7])]).2 relayDirection
        = [(⟨23, 0x0303, [7], by decide, by decide, by decide, by decide⟩ : WireRecord).parsed] :=
  (records_of_every_cutting 16 [(relayDirection, [23, 3]), (relayDirection.swap, [22]),
    (relayDirection, [3, 0, 1, 7])]).1 relayDirection (by decide)
    [⟨23, 0x0303, [7], by decide, by decide, by decide, by decide⟩] (by decide)

end Sipnab.Tls
