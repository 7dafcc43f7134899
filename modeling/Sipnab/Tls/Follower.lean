import Sipnab.Tls.Opening

/-!
# Following one direction

What a decryptor is for: the records of one direction of a TLS 1.3 connection, in order, each opened
under the number that is next. A key update begins new keys and counts from zero. Records of the
handshake open under no traffic key and are passed over.
-/

namespace Sipnab.Tls

open List

structure TrafficKeys where
  secret : Bytes
  key : Bytes
  iv : Bytes
  deriving DecidableEq

/-- The keys of a direction and the number of its next record. -/
structure Follower where
  keys : TrafficKeys
  seq : ℕ
  deriving DecidableEq

section Following

variable (crypto : CryptoBackend) (suite : CipherSuite)

def TrafficKeys.next (keys : TrafficKeys) : Option TrafficKeys := do
  let current := keys.secret
  let hash := if current.length = 48 then HashAlg.sha384 else HashAlg.sha256
  let next ← crypto.hkdfExpand current
    (hkdfExpandLabelInfo (ascii "traffic upd") [] current.length) current.length hash
  let (key, iv) ← deriveKeyIv crypto next suite
  if current = [] then none else return ⟨next, key, iv⟩

def keysAfter (first : TrafficKeys) : ℕ → Option TrafficKeys
  | 0 => some first
  | epoch + 1 => (keysAfter first epoch).bind (TrafficKeys.next crypto suite)

namespace Follower

variable (f : Follower)

def openAt (record : TlsRecord) (n : ℕ) : Option Bytes :=
  openTls13At crypto f.keys.key f.keys.iv record n

/-- New keys begin at zero; where there are none the old ones go on. -/
def ratchet : Follower :=
  match f.keys.next crypto suite with
  | some keys => ⟨keys, 0⟩
  | none => f

def advance (plaintext : Bytes) : Follower :=
  let stripped := stripTls13Padding plaintext
  if isKeyUpdate .tls13 stripped.2 stripped.1 then
    ratchet crypto suite { f with seq := f.seq + 1 }
  else { f with seq := f.seq + 1 }

/-- A record under the next number, and the application data in it. -/
def take (record : TlsRecord) : Follower × Option Bytes :=
  if f.seq ≤ u64Max then
    match f.openAt crypto record f.seq with
    | some plaintext =>
      (f.advance crypto suite plaintext,
        applicationData (stripTls13Padding plaintext).1 (stripTls13Padding plaintext).2)
    | none => (f, none)
  else (f, none)

def produced (item : PendingRecord) (content : Option Bytes) : List RecoveredRecord :=
  (content.map (fun plaintext => ⟨plaintext, item.timestamp, item.src, item.dst⟩)).toList

def takeAll (f : Follower) : List PendingRecord → Follower × List RecoveredRecord
  | [] => (f, [])
  | item :: items =>
    let (f', content) := f.take crypto suite item.record
    let (f'', rest) := takeAll f' items
    (f'', produced item content ++ rest)

variable {crypto suite}

theorem takeAll_append (f : Follower) (items later : List PendingRecord) :
    f.takeAll crypto suite (items ++ later) =
      (((f.takeAll crypto suite items).1.takeAll crypto suite later).1,
        (f.takeAll crypto suite items).2 ++
          ((f.takeAll crypto suite items).1.takeAll crypto suite later).2) := by
  induction items generalizing f with
  | nil => rfl
  | cons item items ih =>
    rw [cons_append, takeAll, takeAll]
    dsimp only
    rw [ih, append_assoc]

theorem takeAll_concat (f : Follower) (items : List PendingRecord) (item : PendingRecord) :
    f.takeAll crypto suite (items ++ [item]) =
      (((f.takeAll crypto suite items).1.take crypto suite item.record).1,
        (f.takeAll crypto suite items).2 ++
          produced item ((f.takeAll crypto suite items).1.take crypto suite item.record).2) := by
  rw [takeAll_append]
  simp [takeAll]

theorem exists_sublist_of_takeAll (f : Follower) (items : List PendingRecord) :
    ∃ opened : List (PendingRecord × Bytes), (opened.map Prod.fst).Sublist items ∧
      (f.takeAll crypto suite items).2 =
        opened.map (fun p => ⟨p.2, p.1.timestamp, p.1.src, p.1.dst⟩) := by
  induction items generalizing f with
  | nil => exact ⟨[], .slnil, rfl⟩
  | cons item items ih =>
    obtain ⟨opened, hsub, hrest⟩ := ih (f.take crypto suite item.record).1
    rw [takeAll]
    dsimp only
    rw [hrest]
    cases (f.take crypto suite item.record).2 with
    | none => exact ⟨opened, hsub.cons _, rfl⟩
    | some plaintext => exact ⟨(item, plaintext) :: opened, hsub.cons_cons _, rfl⟩

theorem pairwise_takeAll (f : Follower) {items : List PendingRecord}
    (h : items.Pairwise (fun a b => a.timestamp ≤ b.timestamp)) :
    (f.takeAll crypto suite items).2.Pairwise (fun a b => a.timestamp ≤ b.timestamp) := by
  obtain ⟨opened, hsub, houtputs⟩ := @exists_sublist_of_takeAll crypto suite f items
  have hopened := h.sublist hsub
  rw [pairwise_map] at hopened
  rw [houtputs, pairwise_map]
  exact hopened

end Follower

end Following

/-! ## Records in order -/

section Streams

variable (crypto : CryptoBackend)

abbrev Schedule := Bool → ℕ → Option TrafficKeys

def Unopened (schedule : Schedule) (record : TlsRecord) : Prop :=
  ∀ direction epoch keys, schedule direction epoch = some keys →
    ∀ n ≤ u64Max, openTls13At crypto keys.key keys.iv record n = none

/-- The record opens under the keys and the number it was sealed with, and under no others of the
schedule. -/
def SealedAt (schedule : Schedule) (direction : Bool) (place : ℕ × ℕ) (plaintext : Bytes)
    (record : TlsRecord) : Prop :=
  place.2 ≤ u64Max ∧ ∀ direction' epoch keys, schedule direction' epoch = some keys →
    ∀ n ≤ u64Max, openTls13At crypto keys.key keys.iv record n =
      if direction' = direction ∧ epoch = place.1 ∧ n = place.2 then some plaintext else none

/-- Records of one direction in order, from the epoch and number of the first to those of the next.
The sender may begin new keys behind any record; handshake records are sealed under other keys. -/
inductive Stream (schedule : Schedule) (direction : Bool) :
    ℕ × ℕ → List PendingRecord → ℕ × ℕ → Prop
  | nil (place : ℕ × ℕ) : Stream schedule direction place [] place
  | handshake {place last : ℕ × ℕ} {item : PendingRecord} {items : List PendingRecord}
      (hitem : Unopened crypto schedule item.record)
      (hrest : Stream schedule direction place items last) :
      Stream schedule direction place (item :: items) last
  | traffic {place next last : ℕ × ℕ} {plaintext : Bytes} {item : PendingRecord}
      {items : List PendingRecord}
      (hitem : SealedAt crypto schedule direction place plaintext item.record)
      (hnext : next = (place.1, place.2 + 1) ∨ next = (place.1 + 1, 0))
      (hrest : Stream schedule direction next items last) :
      Stream schedule direction place (item :: items) last

theorem tls13Nonce_inj {iv : Bytes} (hiv : 8 ≤ iv.length) {n m : ℕ} (hn : n ≤ u64Max)
    (hm : m ≤ u64Max) (h : tls13Nonce iv n = tls13Nonce iv m) : n = m := by
  have hbytes : toBeBytes 8 n = toBeBytes 8 m := by
    apply ext_getElem
    · rw [length_toBeBytes, length_toBeBytes]
    · intro i hi hi'
      rw [length_toBeBytes] at hi
      have hat := congrArg (fun nonce : Bytes => nonce[iv.length - 8 + i]?) h
      dsimp only [tls13Nonce] at hat
      have hget : iv.length - 8 + i < iv.length := by omega
      rw [List.getElem?_mapIdx, List.getElem?_mapIdx, List.getElem?_eq_getElem hget] at hat
      simp only [Option.map_some, Nat.le_add_right, if_true, Nat.add_sub_cancel_left,
        Option.some.injEq, UInt8.xor_right_inj] at hat
      simpa [List.getD, hi] using hat
  have hinv := congrArg ofBeBytes hbytes
  have hbound : u64Max < 256 ^ 8 := by decide
  rw [ofBeBytes_toBeBytes (by omega), ofBeBytes_toBeBytes (by omega)] at hinv
  exact hinv

variable {record : TlsRecord} {epoch : ℕ}

theorem sealedAt_of_ideal {crypto : CryptoBackend}
    {sealed : Bytes → Bytes → Bytes → Bytes → Bytes} (hideal : Ideal crypto sealed)
    {schedule : Schedule} {direction : Bool} {place : ℕ × ℕ} {keys : TrafficKeys}
    (hkeys : schedule direction place.1 = some keys) (hiv : 8 ≤ keys.iv.length)
    (hbound : place.2 ≤ u64Max)
    (hdistinct : ∀ direction' epoch keys', schedule direction' epoch = some keys' →
      keys'.key = keys.key → direction' = direction ∧ epoch = place.1) {plaintext : Bytes}
    (hrecord : record.payload = sealed keys.key (tls13Nonce keys.iv place.2)
      (buildRecordAad record) plaintext) :
    SealedAt crypto schedule direction place plaintext record := by
  refine ⟨hbound, ?_⟩
  intro direction' epoch keys' hkeys' n hn
  split_ifs with hplace
  · obtain ⟨rfl, rfl, rfl⟩ := hplace
    rw [hkeys] at hkeys'
    obtain rfl := Option.some.inj hkeys'
    exact (hideal.opens_iff _ _ _ _ _).mpr hrecord
  · rw [Option.eq_none_iff_forall_ne_some]
    intro plaintext' hopen
    have hpayload := (hideal.opens_iff _ _ _ _ _).mp hopen
    obtain ⟨hkey, hnonce, -, -⟩ := hideal.seal_inj (hpayload.symm.trans hrecord)
    obtain ⟨rfl, rfl⟩ := hdistinct direction' epoch keys' hkeys' hkey
    rw [hkeys] at hkeys'
    obtain rfl := Option.some.inj hkeys'
    exact hplace ⟨rfl, rfl, tls13Nonce_inj hiv hn hbound hnonce⟩

variable {crypto} {suite : CipherSuite} {schedule : Schedule} {direction : Bool}
  {place next last : ℕ × ℕ} {items later : List PendingRecord} {item : PendingRecord}

theorem Stream.split (h : Stream crypto schedule direction place (items ++ later) last) :
    ∃ middle, Stream crypto schedule direction place items middle ∧
      Stream crypto schedule direction middle later last := by
  induction items generalizing place with
  | nil => exact ⟨place, .nil place, h⟩
  | cons item items ih =>
    cases h with
    | handshake hitem hrest =>
      obtain ⟨middle, hitems, hlater⟩ := ih hrest
      exact ⟨middle, .handshake hitem hitems, hlater⟩
    | traffic hitem hnext hrest =>
      obtain ⟨middle, hitems, hlater⟩ := ih hrest
      exact ⟨middle, .traffic hitem hnext hitems, hlater⟩

/-- The follower is where the sender is, or ahead of it waiting for keys it has begun already, or
behind it with keys the sender has done with. -/
def Linked (schedule : Schedule) (direction : Bool) (f : Follower) (place : ℕ × ℕ) : Prop :=
  ∃ epoch, schedule direction epoch = some f.keys ∧
    ((epoch = place.1 ∧ f.seq = place.2) ∨ (place.1 < epoch ∧ f.seq = 0) ∨ epoch < place.1)

def Spent (crypto : CryptoBackend) (schedule : Schedule) (direction : Bool) (place : ℕ × ℕ)
    (record : TlsRecord) : Prop :=
  Unopened crypto schedule record ∨
    ∃ sealedAt plaintext, SealedAt crypto schedule direction sealedAt plaintext record ∧
      (sealedAt.1 < place.1 ∨ sealedAt.1 = place.1 ∧ sealedAt.2 < place.2)

/-- Nothing opens the record from the follower's number on. -/
def Follower.Behind (crypto : CryptoBackend) (f : Follower) (record : TlsRecord) : Prop :=
  ∀ n, f.seq ≤ n → n ≤ u64Max → f.openAt crypto record n = none

/-- Nothing opens the record beyond the follower's number. -/
def Follower.Settled (crypto : CryptoBackend) (f : Follower) (record : TlsRecord) : Prop :=
  ∀ n, f.seq < n → n ≤ u64Max → f.openAt crypto record n = none

theorem take_of_sealedAt {f : Follower} {plaintext : Bytes} {record : TlsRecord}
    (hlinked : Linked schedule direction f place)
    (hrecord : SealedAt crypto schedule direction place plaintext record) :
    Follower.Settled crypto f record ∧
      ((∃ epoch, schedule direction epoch = some f.keys ∧ epoch = place.1 ∧ f.seq = place.2 ∧
          f.take crypto suite record =
            (f.advance crypto suite plaintext, applicationData (stripTls13Padding plaintext).1
              (stripTls13Padding plaintext).2)) ∨
        (∃ epoch, schedule direction epoch = some f.keys ∧
          ((place.1 < epoch ∧ f.seq = 0) ∨ epoch < place.1) ∧
            f.take crypto suite record = (f, none) ∧ Follower.Behind crypto f record)) := by
  obtain ⟨epoch, hkeys, hplace⟩ := hlinked
  obtain ⟨hbound, hopens⟩ := hrecord
  have hopen : ∀ n ≤ u64Max, f.openAt crypto record n =
      if epoch = place.1 ∧ n = place.2 then some plaintext else none := by
    intro n hn
    have h := hopens direction epoch f.keys hkeys n hn
    simp only [true_and] at h
    exact h
  rcases hplace with ⟨hepoch, hseq⟩ | hother
  · refine ⟨?_, .inl ⟨epoch, hkeys, hepoch, hseq, ?_⟩⟩
    · intro n hlt hn
      rw [hopen n hn, if_neg (by omega)]
    · rw [Follower.take, if_pos (by omega), hopen _ (by omega), if_pos ⟨hepoch, hseq⟩]
  · have hnone : ∀ n ≤ u64Max, f.openAt crypto record n = none := by
      intro n hn
      rw [hopen n hn, if_neg (by omega)]
    refine ⟨fun n _ hn => hnone n hn, .inr ⟨epoch, hkeys, hother, ?_, fun n _ hn => hnone n hn⟩⟩
    rw [Follower.take]
    split_ifs with hle
    · rw [hnone _ hle]
    · rfl

theorem advance_cases (hschedule : ∀ epoch, schedule direction (epoch + 1) =
      (schedule direction epoch).bind (TrafficKeys.next crypto suite)) (f : Follower)
    (hkeys : schedule direction epoch = some f.keys) (plaintext : Bytes) :
    f.advance crypto suite plaintext = { f with seq := f.seq + 1 } ∨
      (schedule direction (epoch + 1) = some (f.advance crypto suite plaintext).keys ∧
        (f.advance crypto suite plaintext).seq = 0) := by
  unfold Follower.advance
  dsimp only
  split_ifs
  · unfold Follower.ratchet
    dsimp only
    cases hnext : f.keys.next crypto suite with
    | none => exact .inl rfl
    | some keys =>
      have hepoch : schedule direction (epoch + 1) = some keys := by
        rw [hschedule, hkeys, Option.bind_some, hnext]
      exact .inr ⟨hepoch, rfl⟩
  · exact .inl rfl

/-- A follower that has been given records, and is behind none of them. -/
structure Tracked (crypto : CryptoBackend) (schedule : Schedule) (direction : Bool) (f : Follower)
    (place : ℕ × ℕ) (items : List PendingRecord) : Prop where
  linked : Linked schedule direction f place
  spent : ∀ item ∈ items, Spent crypto schedule direction place item.record
  behind : ∀ item ∈ items, Follower.Behind crypto f item.record

theorem Unopened.behind {f : Follower} (h : Unopened crypto schedule record)
    (hkeys : schedule direction epoch = some f.keys) :
    Follower.Behind crypto f record := fun n _ hn => h direction epoch f.keys hkeys n hn

theorem SealedAt.behind {f : Follower} {plaintext : Bytes}
    (h : SealedAt crypto schedule direction place plaintext record)
    (hkeys : schedule direction epoch = some f.keys) (hlt : place.1 < epoch) :
    Follower.Behind crypto f record := by
  intro n _ hn
  have hopen := h.2 direction epoch f.keys hkeys n hn
  rw [if_neg (by omega)] at hopen
  exact hopen

theorem Spent.mono (h : Spent crypto schedule direction place record)
    (hnext : next = (place.1, place.2 + 1) ∨ next = (place.1 + 1, 0)) :
    Spent crypto schedule direction next record := by
  rcases h with hunopened | ⟨sealedAt, plaintext, hsealed, hbefore⟩
  · exact .inl hunopened
  · refine .inr ⟨sealedAt, plaintext, hsealed, ?_⟩
    rcases hnext with rfl | rfl <;> dsimp only <;> omega

namespace Tracked

variable {f : Follower} (hschedule : ∀ epoch, schedule direction (epoch + 1) =
  (schedule direction epoch).bind (TrafficKeys.next crypto suite))

theorem handshake (h : Tracked crypto schedule direction f place items)
    (hitem : Unopened crypto schedule item.record) :
    f.take crypto suite item.record = (f, none) ∧
      Tracked crypto schedule direction f place (items ++ [item]) := by
  obtain ⟨epoch, hkeys, hplace⟩ := h.linked
  have hbehind : Follower.Behind crypto f item.record := hitem.behind hkeys
  constructor
  · rw [Follower.take]
    split_ifs with hle
    · rw [hbehind f.seq le_rfl hle]
    · rfl
  · refine ⟨h.linked, ?_, ?_⟩
    · rw [forall_mem_append, forall_mem_singleton]
      exact ⟨h.spent, .inl hitem⟩
    · rw [forall_mem_append, forall_mem_singleton]
      exact ⟨h.behind, hbehind⟩

include hschedule in
theorem traffic (h : Tracked crypto schedule direction f place items) {plaintext : Bytes}
    (hitem : SealedAt crypto schedule direction place plaintext item.record)
    (hnext : next = (place.1, place.2 + 1) ∨ next = (place.1 + 1, 0)) :
    Tracked crypto schedule direction (f.take crypto suite item.record).1 next
      (items ++ [item]) := by
  obtain ⟨hsettled, hcases⟩ := @take_of_sealedAt crypto suite schedule direction place f plaintext
    item.record h.linked hitem
  have hspent : ∀ r ∈ items ++ [item], Spent crypto schedule direction next r.record := by
    rw [forall_mem_append, forall_mem_singleton]
    refine ⟨fun r hr => (h.spent r hr).mono hnext, .inr ⟨place, plaintext, hitem, ?_⟩⟩
    rcases hnext with rfl | rfl <;> dsimp only <;> omega
  rcases hcases with ⟨epoch, hkeys, hepoch, hseq, htake⟩ | ⟨epoch, hkeys, hplace, htake, hbehind⟩
  · rw [htake]
    rcases advance_cases hschedule f hkeys plaintext with hsame | ⟨hnew, hzero⟩
    · -- The keys go on, one number further.
      rw [hsame]
      refine ⟨⟨epoch, hkeys, ?_⟩, hspent, ?_⟩
      · rcases hnext with rfl | rfl <;> dsimp only <;> omega
      · rw [forall_mem_append, forall_mem_singleton]
        exact ⟨fun r hr n hle hn => h.behind r hr n (Nat.le_of_succ_le hle) hn,
          fun n hle hn => hsettled n hle hn⟩
    · -- New keys open nothing that was sealed before.
      refine ⟨⟨epoch + 1, hnew, ?_⟩, hspent, ?_⟩
      · rcases hnext with rfl | rfl <;> dsimp only <;> omega
      · rw [forall_mem_append, forall_mem_singleton]
        constructor
        · intro r hr
          rcases h.spent r hr with hunopened | ⟨sealedAt, plaintext', hsealed, hbefore⟩
          · exact hunopened.behind hnew
          · exact hsealed.behind hnew (by omega)
        · exact hitem.behind hnew (by omega)
  · rw [htake]
    refine ⟨⟨epoch, hkeys, ?_⟩, hspent, ?_⟩
    · rcases hnext with rfl | rfl <;> dsimp only <;> omega
    · rw [forall_mem_append, forall_mem_singleton]
      exact ⟨h.behind, hbehind⟩

include hschedule in
theorem takeAll (h : Tracked crypto schedule direction f place items)
    (hstream : Stream crypto schedule direction place later last) :
    Tracked crypto schedule direction (f.takeAll crypto suite later).1 last (items ++ later) := by
  induction hstream generalizing f items with
  | nil place =>
    rw [append_nil]
    exact h
  | @handshake place last item later hitem hrest ih =>
    obtain ⟨htake, htracked⟩ := @handshake crypto suite schedule direction place items item f h hitem
    have hlater := ih htracked
    rw [Follower.takeAll, htake]
    simpa using hlater
  | traffic hitem hnext hrest ih =>
    have hlater := ih (traffic hschedule h hitem hnext)
    rw [Follower.takeAll]
    simpa using hlater

end Tracked

end Streams

end Sipnab.Tls
