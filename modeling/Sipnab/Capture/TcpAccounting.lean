import Sipnab.Capture.TcpDelivery

/-!
# The byte count of a TCP buffer

A stream counts the bytes of the segments it buffers, and the count is held against the ceiling.
Every segment taken out is counted down, so the count drifts from the bytes held in one place only:
where a segment is buffered under a number that already holds one.
-/

namespace Sipnab

open List Option OrderedMap

namespace TcpStream

def heldBytes (st : TcpStream) : ℕ := (st.buffer.entries.map (fun e => e.2.length)).sum

def Drifts (drift : ℕ) (st : TcpStream) : Prop := st.bufferedBytes = st.heldBytes + drift

/-- Nothing is buffered that was not, and what is no longer buffered has been counted down. -/
structure Sheds (st st' : TcpStream) : Prop where
  entries : ∀ e ∈ st'.buffer.entries, e ∈ st.buffer.entries
  drifts : ∀ drift, st.Drifts drift → st'.Drifts drift

variable {st st' st'' : TcpStream}

theorem Sheds.refl (st : TcpStream) : Sheds st st := ⟨fun _ h => h, fun _ h => h⟩

theorem Sheds.trans (h : Sheds st st') (h' : Sheds st' st'') : Sheds st st'' :=
  ⟨fun e he => h.entries e (h'.entries e he), fun drift hd => h'.drifts drift (h.drifts drift hd)⟩

theorem Sheds.of_eq (hbuffer : st'.buffer = st.buffer)
    (hbytes : st'.bufferedBytes = st.bufferedBytes) : Sheds st st' := by
  constructor
  · rw [hbuffer]
    exact fun _ h => h
  · intro drift h
    rw [Drifts, heldBytes, hbuffer, hbytes]
    exact h

theorem Sheds.of_erase {seq : BitVec 32} {data : List UInt8}
    (hget : st.buffer.get? seq = some data) (hbuffer : st'.buffer = st.buffer.erase seq)
    (hbytes : st'.bufferedBytes = st.bufferedBytes - data.length) : Sheds st st' := by
  constructor
  · rw [hbuffer]
    exact fun e he => (OrderedMap.mem_entries_erase.mp he).1
  · intro drift h
    have hsum := sum_erase hget List.length
    rw [Drifts, heldBytes] at h ⊢
    rw [hbuffer, hbytes, h, hsum]
    omega

theorem sheds_dropSegment (st : TcpStream) (seq : BitVec 32) : Sheds st (st.dropSegment seq) := by
  rw [dropSegment]
  cases hget : st.buffer.get? seq with
  | none => exact Sheds.refl st
  | some data => exact Sheds.of_erase hget rfl rfl

theorem sheds_foldl_dropSegment (seqs : List (BitVec 32)) (st : TcpStream) :
    Sheds st (seqs.foldl dropSegment st) := by
  induction seqs generalizing st with
  | nil => exact Sheds.refl st
  | cons seq seqs ih => exact (sheds_dropSegment st seq).trans (ih _)

theorem sheds_drainLoop (n : ℕ) (st : TcpStream) : Sheds st (drainLoop n st).1 := by
  induction n generalizing st with
  | zero => exact Sheds.refl st
  | succ n ih =>
    rw [drainLoop]
    cases hget : st.buffer.get? st.expectedSeq with
    | some data => exact Sheds.trans (Sheds.of_erase hget rfl rfl) (ih _)
    | none =>
      dsimp only
      split_ifs
      · exact Sheds.refl st
      · exact (sheds_foldl_dropSegment _ st).trans (ih _)

theorem sheds_drainInOrder (st : TcpStream) : Sheds st st.drainInOrder.1 := sheds_drainLoop _ st

theorem sheds_flushPendingPush (st : TcpStream) : Sheds st st.flushPendingPush.1 := by
  by_cases hpush : st.pendingFlush = true
  · obtain ⟨pendingFlush, hflush, -⟩ := flushPendingPush_eq hpush
    rw [hflush]
    exact (sheds_drainInOrder st).trans (Sheds.of_eq rfl rfl)
  · rw [flushPendingPush, if_neg hpush]
    exact Sheds.refl st

theorem sheds_release (ceiling : ℕ) (st : TcpStream) (p : ParsedPacket) :
    Sheds st (st.release ceiling p).1 := by
  rw [release]
  split_ifs
  · exact sheds_drainInOrder st
  · obtain ⟨blockedTemplate, hblocked⟩ := rememberBlocked_eq st.flushPendingPush.1 p
    dsimp only
    rw [hblocked]
    exact (sheds_flushPendingPush st).trans (Sheds.of_eq rfl rfl)

theorem sheds_resyncPastHole {startsMessage : List UInt8 → Bool} {justArrived : Option (BitVec 32)}
    {spanned : ℕ} (h : st.resyncPastHole startsMessage justArrived = some (st', spanned)) :
    Sheds st st' := by
  rw [resyncPastHole] at h
  split_ifs at h
  obtain ⟨target, -, heq⟩ := map_eq_some_iff.mp h
  obtain ⟨rfl, -⟩ := Prod.mk.inj heq
  exact (sheds_foldl_dropSegment _ st).trans (Sheds.of_eq rfl rfl)

/-! ## Recording a segment -/

/-- The bytes of the segment that a new one replaces; a SYN empties the buffer first. -/
def replacedBytes (st : TcpStream) (flags : TcpFlags) (seq : BitVec 32) (p : ParsedPacket) : ℕ :=
  if flags.syn || p.payload.isEmpty then 0 else (st.buffer.get? seq).elim 0 List.length

theorem anchor_eq (st : TcpStream) (seq : BitVec 32) (hasPayload : Bool) :
    ∃ expectedSeq, st.anchor seq hasPayload = { st with expectedSeq, initialized := true } := by
  unfold anchor
  by_cases hinit : st.initialized = true
  · rw [if_pos hinit]
    dsimp only
    split_ifs <;> exact ⟨_, by rw [← hinit]⟩
  · rw [if_neg hinit]
    dsimp only
    split_ifs <;> exact ⟨_, rfl⟩

variable (now : Instant)

theorem takeSegment_spec (st : TcpStream) (flags : TcpFlags) (seq : BitVec 32)
    (p : ParsedPacket) :
    let st' := (st.takeSegment now flags seq p).1
    st'.buffer =
        (if p.payload.isEmpty then (if flags.syn then .empty else st.buffer)
          else (if flags.syn then OrderedMap.empty else st.buffer).insert seq p.payload) ∧
      st'.bufferedBytes = (if flags.syn then 0 else st.bufferedBytes) + p.payload.length ∧
      st'.resynced = st.resynced ∧ st'.delivered = st.delivered ∧ st'.initialized = true ∧
      st'.lastPacketAt = max st.lastPacketAt p.timestamp := by
  rw [takeSegment]
  obtain ⟨expectedSeq, hanchor⟩ := anchor_eq
    (if flags.syn then
      { st with lastSeen := now, lastPacketAt := max st.lastPacketAt p.timestamp }.restartAtSyn seq
    else { st with lastSeen := now, lastPacketAt := max st.lastPacketAt p.timestamp })
    seq (!p.payload.isEmpty)
  rw [hanchor]
  cases hsyn : flags.syn <;> cases hempty : p.payload.isEmpty <;> cases flags.psh <;>
    simp_all [restartAtSyn]

theorem takeSegment_snd (st : TcpStream) (flags : TcpFlags) (seq : BitVec 32) (p : ParsedPacket) :
    (st.takeSegment now flags seq p).2 = !(flags.syn && p.payload.isEmpty) := by
  unfold takeSegment
  by_cases h : (flags.syn && p.payload.isEmpty) = true
  · rw [if_pos h, h]
    rfl
  · rw [if_neg h, Bool.eq_false_iff.mpr h]
    rfl

theorem drifts_takeSegment (flags : TcpFlags) (seq : BitVec 32) (p : ParsedPacket)
    (h : st.Drifts 0) :
    (st.takeSegment now flags seq p).1.Drifts (st.replacedBytes flags seq p) := by
  obtain ⟨hbuffer, hbytes, -⟩ := takeSegment_spec now st flags seq p
  rw [Drifts, heldBytes, hbuffer, hbytes, replacedBytes]
  rw [Drifts, heldBytes] at h
  cases hsyn : flags.syn <;> cases hempty : p.payload.isEmpty
  · have hsum := sum_insert st.buffer seq p.payload List.length
    simp only [Bool.false_eq_true, if_false, Bool.or_self]
    omega
  · rw [List.isEmpty_iff.mp hempty]
    simpa using h
  · have hsum := sum_insert (.empty : OrderedMap (BitVec 32) (List UInt8)) seq p.payload List.length
    have hnone : (OrderedMap.empty : OrderedMap (BitVec 32) (List UInt8)).get? seq = none := rfl
    rw [hnone, elim_none] at hsum
    have hzero : ((OrderedMap.empty : OrderedMap (BitVec 32) (List UInt8)).entries.map
        (fun e => e.2.length)).sum = 0 := rfl
    simp only [Bool.false_eq_true, if_false, if_true, Bool.or_false]
    omega
  · rw [List.isEmpty_iff.mp hempty]
    rfl

def Filled (st : TcpStream) : Prop := ∀ e ∈ st.buffer.entries, e.2 ≠ []

theorem Sheds.filled (h : Sheds st st') (hfilled : st.Filled) : st'.Filled :=
  fun e he => hfilled e (h.entries e he)

theorem Filled.takeSegment (h : st.Filled) (now : Instant) (flags : TcpFlags) (seq : BitVec 32)
    (p : ParsedPacket) : (st.takeSegment now flags seq p).1.Filled := by
  intro e he
  rw [(takeSegment_spec now st flags seq p).1] at he
  have hkept : e ∈ (if flags.syn then OrderedMap.empty else st.buffer).entries → e.2 ≠ [] := by
    intro hmem
    split_ifs at hmem
    · exact absurd hmem not_mem_nil
    · exact h e hmem
  by_cases hempty : p.payload.isEmpty = true
  · rw [if_pos hempty] at he
    exact hkept he
  · rw [if_neg hempty] at he
    rcases OrderedMap.mem_entries_insert.mp he with rfl | ⟨-, hmem⟩
    · exact fun hnil => hempty (List.isEmpty_iff.mpr hnil)
    · exact hkept hmem

end TcpStream

/-! ## All streams -/

namespace TcpReassembler
open TcpStream
variable {env : ReassemblyEnv} {now : Instant} {r : TcpReassembler} {p : ParsedPacket}
  {key : TcpStreamKey}

theorem get?_put_other (r : TcpReassembler) {key key' : TcpStreamKey} (h : key' ≠ key)
    (st : TcpStream) : (r.put key st).streams.get? key' = r.streams.get? key' := by
  rw [put, IndexMap.insert, IndexMap.get?_alter, if_neg h]

theorem get?_remove (r : TcpReassembler) (key key' : TcpStreamKey) :
    (r.remove key).streams.get? key' = if key' = key then none else r.streams.get? key' := by
  rw [remove, IndexMap.get?_filter_key r.streams (fun k => decide (k ≠ key))]
  by_cases h : key' = key
  · rw [if_pos h, if_neg (by simpa using h)]
  · rw [if_neg h, if_pos (by simpa using h)]

/-- The reassembler tracks no stream that another does not. -/
def Within (r r' : TcpReassembler) : Prop :=
  ∀ key st, r.streams.get? key = some st → r'.streams.get? key = some st

theorem within_remove (r : TcpReassembler) (key : TcpStreamKey) : Within (r.remove key) r := by
  intro key' st h
  rw [get?_remove] at h
  split_ifs at h
  exact h

variable {α : Type*} {flags : TcpFlags} {P : TcpStream → Prop}

theorem within_foldl_remove (f : α → TcpStreamKey) (xs : List α) (r : TcpReassembler) :
    Within (xs.foldl (fun r x => r.remove (f x)) r) r := by
  induction xs generalizing r with
  | nil => exact fun _ _ h => h
  | cons x xs ih => exact fun key st h => within_remove r (f x) key st (ih _ key st h)

theorem within_makeRoom (env : ReassemblyEnv) (r : TcpReassembler) (key : TcpStreamKey) :
    Within (r.makeRoom env key) r := by
  rw [makeRoom]
  split_ifs
  · exact within_foldl_remove _ _ r
  · exact fun _ _ h => h

theorem get?_makeRoom_self (env : ReassemblyEnv) (r : TcpReassembler) (key : TcpStreamKey) :
    (r.makeRoom env key).streams.get? key = r.streams.get? key := by
  cases hget : r.streams.get? key with
  | some st =>
    rw [makeRoom, if_neg, hget]
    rw [hget]
    exact fun h => Bool.false_ne_true h.1
  | none =>
    cases hroom : (r.makeRoom env key).streams.get? key with
    | none => rfl
    | some st => rw [← within_makeRoom env r key key st hroom, hget]

theorem within_restartIfSilent (r : TcpReassembler) (key : TcpStreamKey) (timestamp : DateTime) :
    Within (r.restartIfSilent key timestamp).1 r := by
  rw [restartIfSilent]
  split_ifs
  · exact within_remove r key
  · exact fun _ _ h => h

/-- The stream a packet continues: the one tracked under its key, unless it has been silent for too
long. -/
def continued (r : TcpReassembler) (p : ParsedPacket) : Option TcpStream :=
  (r.streams.get? p.streamKey).filter (fun st => !silentPast st.lastPacketAt p.timestamp r.ttl)

theorem get?_restartIfSilent_self (r : TcpReassembler) (p : ParsedPacket) :
    (r.restartIfSilent p.streamKey p.timestamp).1.streams.get? p.streamKey = r.continued p := by
  rw [restartIfSilent, continued]
  cases hget : r.streams.get? p.streamKey with
  | none =>
    rw [any_none, if_neg Bool.false_ne_true, hget]
    rfl
  | some st =>
    rw [any_some, filter_some]
    cases hsilent : silentPast st.lastPacketAt p.timestamp r.ttl with
    | true =>
      rw [if_pos rfl, get?_remove, if_pos rfl]
      rfl
    | false =>
      rw [if_neg Bool.false_ne_true, hget]
      rfl

def recordedOn (now : Instant) (r : TcpReassembler) (seq : BitVec 32) (p : ParsedPacket) :
    TcpStream :=
  (r.continued p).getD (opened now seq p (r.restartIfSilent p.streamKey p.timestamp).2)

theorem resyncStream_spec (r : TcpReassembler) (seq : BitVec 32) (p : ParsedPacket)
    (st : TcpStream) :
    (r.resyncStream seq p st).1.streams = r.streams ∧ Sheds st (r.resyncStream seq p st).2 := by
  rw [resyncStream]
  cases hskip : r.resync.bind (fun startsMessage =>
      st.resyncPastHole startsMessage (if p.payload.isEmpty then none else some seq)) with
  | none => exact ⟨rfl, Sheds.refl st⟩
  | some skipped =>
    obtain ⟨st', spanned⟩ := skipped
    obtain ⟨startsMessage, -, hresync⟩ := bind_eq_some_iff.mp hskip
    exact ⟨rfl, sheds_resyncPastHole hresync⟩

def SameSettings (r r' : TcpReassembler) : Prop := r.ttl = r'.ttl ∧ r.resync = r'.resync

theorem sameSettings_foldl_remove (f : α → TcpStreamKey) (xs : List α) (r : TcpReassembler) :
    SameSettings (xs.foldl (fun r x => r.remove (f x)) r) r := by
  induction xs generalizing r with
  | nil => exact ⟨rfl, rfl⟩
  | cons x xs ih => exact ih (r.remove (f x))

theorem sameSettings_makeRoom (env : ReassemblyEnv) (r : TcpReassembler) (key : TcpStreamKey) :
    SameSettings (r.makeRoom env key) r := by
  rw [makeRoom]
  split_ifs
  · exact sameSettings_foldl_remove _ _ r
  · exact ⟨rfl, rfl⟩

theorem sameSettings_restartIfSilent (r : TcpReassembler) (key : TcpStreamKey)
    (timestamp : DateTime) : SameSettings (r.restartIfSilent key timestamp).1 r := by
  rw [restartIfSilent]
  split_ifs
  · exact ⟨rfl, rfl⟩
  · exact ⟨rfl, rfl⟩

theorem resyncStream_congr {r' : TcpReassembler} (h : SameSettings r' r) (seq : BitVec 32)
    (p : ParsedPacket) (st : TcpStream) :
    (r'.resyncStream seq p st).2 = (r.resyncStream seq p st).2 ∧
      SameSettings (r'.resyncStream seq p st).1 r := by
  obtain ⟨httl, hresync⟩ := h
  simp only [resyncStream, hresync]
  cases r.resync.bind (fun startsMessage =>
      st.resyncPastHole startsMessage (if p.payload.isEmpty then none else some seq)) with
  | none => exact ⟨rfl, httl, hresync⟩
  | some skipped => exact ⟨rfl, httl, rfl⟩

/-- Inserting a segment that resets nothing: other streams are left or evicted, and its own takes
it, skips a hole where it can, and hands over what it can; a FIN takes the stream with it. -/
theorem insert_eq (env : ReassemblyEnv) (now : Instant) (r : TcpReassembler) {seq : BitVec 32}
    (hflags : p.tcpFlags = some flags) (hseq : p.tcpSeq = some seq) (hrst : flags.rst = false) :
    let st := ((r.recordedOn now seq p).takeSegment now flags seq p).1
    let resumed := (r.resyncStream seq p st).2
    ∃ r', Within r' r ∧ SameSettings r' r ∧ r.insert env now p =
      if flags.syn && p.payload.isEmpty then (r'.put p.streamKey st, [])
      else if flags.fin then (r'.remove p.streamKey, resumed.drainAsResults.2)
      else (r'.put p.streamKey (resumed.release env.maxTcpBuffer p).1,
        (resumed.release env.maxTcpBuffer p).2) := by
  intro st resumed
  have hsettings : SameSettings
      ((r.restartIfSilent p.streamKey p.timestamp).1.makeRoom env p.streamKey) r := by
    obtain ⟨httl, hresync⟩ := sameSettings_restartIfSilent r p.streamKey p.timestamp
    obtain ⟨httl', hresync'⟩ :=
      sameSettings_makeRoom env (r.restartIfSilent p.streamKey p.timestamp).1 p.streamKey
    exact ⟨httl'.trans httl, hresync'.trans hresync⟩
  have hwithin : Within
      ((r.restartIfSilent p.streamKey p.timestamp).1.makeRoom env p.streamKey) r :=
    fun key st h => within_restartIfSilent r p.streamKey p.timestamp key st
      (within_makeRoom env _ p.streamKey key st h)
  have hself : ((((r.restartIfSilent p.streamKey p.timestamp).1.makeRoom env
      p.streamKey).streams.get? p.streamKey).getD
        (opened now seq p (r.restartIfSilent p.streamKey p.timestamp).2)) =
      r.recordedOn now seq p := by
    rw [get?_makeRoom_self, get?_restartIfSilent_self, recordedOn]
  have hmore := takeSegment_snd now (r.recordedOn now seq p) flags seq p
  simp only [insert, hflags, hseq, hrst, Bool.false_eq_true, if_false, hself]
  generalize (r.restartIfSilent p.streamKey p.timestamp).1.makeRoom env p.streamKey = r₁
    at hwithin hsettings
  by_cases hempty : (flags.syn && p.payload.isEmpty) = true
  · rw [hmore, hempty, Bool.not_true, if_pos rfl]
    exact ⟨r₁, hwithin, hsettings, rfl⟩
  · rw [Bool.not_eq_true] at hempty
    rw [hmore, hempty, Bool.not_false, if_neg Bool.noConfusion]
    obtain ⟨hresumed, hsettings'⟩ := resyncStream_congr hsettings seq p st
    refine ⟨(r₁.resyncStream seq p st).1, ?_, hsettings', ?_⟩
    · intro key st' h
      rw [(resyncStream_spec r₁ seq p st).1] at h
      exact hwithin key st' h
    · rw [show (r₁.resyncStream seq p st).2 = resumed from hresumed]
      rfl

/-- What inserting a segment does to the streams: others are left or evicted, and its own is gone
with a FIN, or holds what was recorded less what was handed over or dropped. -/
theorem insert_streams (env : ReassemblyEnv) (now : Instant) (r : TcpReassembler)
    {seq : BitVec 32} (hflags : p.tcpFlags = some flags) (hseq : p.tcpSeq = some seq)
    (hrst : flags.rst = false) :
    (∀ key ≠ p.streamKey, ∀ st, (r.insert env now p).1.streams.get? key = some st →
        r.streams.get? key = some st) ∧
      if flags.fin && !(flags.syn && p.payload.isEmpty) then
        (r.insert env now p).1.streams.get? p.streamKey = none
      else ∃ st, (r.insert env now p).1.streams.get? p.streamKey = some st ∧
        Sheds ((r.recordedOn now seq p).takeSegment now flags seq p).1 st := by
  obtain ⟨r', hwithin, -, hinsert⟩ := insert_eq env now r hflags hseq hrst
  obtain ⟨-, hsheds⟩ := resyncStream_spec r seq p
    ((r.recordedOn now seq p).takeSegment now flags seq p).1
  rw [hinsert]
  by_cases hempty : (flags.syn && p.payload.isEmpty) = true
  · rw [if_pos hempty, hempty, Bool.not_true, Bool.and_false, if_neg Bool.false_ne_true]
    refine ⟨?_, _, get?_put _ _ _, Sheds.refl _⟩
    intro key hkey st h
    rw [get?_put_other _ hkey] at h
    exact hwithin key st h
  · rw [if_neg hempty, Bool.eq_false_iff.mpr hempty, Bool.not_false, Bool.and_true]
    by_cases hfin : flags.fin = true
    · rw [if_pos hfin, if_pos hfin]
      refine ⟨?_, ?_⟩
      · intro key hkey st h
        rw [get?_remove, if_neg hkey] at h
        exact hwithin key st h
      · rw [get?_remove, if_pos rfl]
    · rw [if_neg hfin, if_neg hfin]
      refine ⟨?_, _, get?_put _ _ _, hsheds.trans (sheds_release _ _ p)⟩
      intro key hkey st h
      rw [get?_put_other _ hkey] at h
      exact hwithin key st h

/-! ## Runs -/

def Everywhere (P : TcpStream → Prop) (r : TcpReassembler) : Prop :=
  ∀ key st, r.streams.get? key = some st → P st

section Everywhere
variable {P : TcpStream → Prop}

theorem Everywhere.put (h : Everywhere P r) {st : TcpStream} (hst : P st) :
    Everywhere P (r.put key st) := by
  intro key' st' hget
  by_cases hkey : key' = key
  · subst hkey
    rw [get?_put] at hget
    exact some.inj hget ▸ hst
  · rw [get?_put_other r hkey] at hget
    exact h key' st' hget

theorem Everywhere.sweep (h : Everywhere P r) (now : Instant) : Everywhere P (r.sweep now) := by
  intro key st hget
  have hmem := IndexMap.get?_eq_some_iff.mp hget
  exact h key st (IndexMap.get?_eq_some_iff.mpr (mem_of_mem_filter hmem))

variable (hclosed : ∀ st st', Sheds st st' → P st → P st')
include hclosed

theorem Everywhere.takeResync (h : Everywhere P r) (key : TcpStreamKey) :
    Everywhere P (r.takeResync key).1 := by
  rw [TcpReassembler.takeResync]
  cases hget : r.streams.get? key with
  | none => exact h
  | some st => exact h.put (hclosed st _ (Sheds.of_eq rfl rfl) (h key st hget))

theorem Everywhere.finishStream (startsMessage : List UInt8 → Bool)
    (acc : TcpReassembler × List (ParsedPacket × List UInt8)) (h : Everywhere P acc.1)
    (key : TcpStreamKey) : Everywhere P (TcpReassembler.finishStream startsMessage acc key).1 := by
  rw [TcpReassembler.finishStream]
  cases hget : acc.1.streams.get? key with
  | none => exact h
  | some st =>
    have hst := h key st hget
    have hdrained : ∀ st₁ : TcpStream, P st₁ →
        P { st₁.drainInOrder.1 with blockedTemplate := none } :=
      fun st₁ hst₁ => hclosed st₁ _ ((sheds_drainInOrder st₁).trans (Sheds.of_eq rfl rfl)) hst₁
    dsimp only
    cases hskip : st.resyncPastHole startsMessage none with
    | none => exact h.put (hdrained st hst)
    | some skipped =>
      have hskipped := hclosed st skipped.1 (sheds_resyncPastHole hskip) hst
      exact Everywhere.put (fun key' st' => h key' st') (hdrained skipped.1 hskipped)

theorem Everywhere.finish (h : Everywhere P r) (walk : List TcpStreamKey → List TcpStreamKey) :
    Everywhere P (r.finish walk).1 := by
  rw [TcpReassembler.finish]
  cases r.resync with
  | none => exact h
  | some startsMessage =>
    dsimp only
    generalize walk _ = keys
    have hfold : ∀ (keys : List TcpStreamKey)
        (acc : TcpReassembler × List (ParsedPacket × List UInt8)), Everywhere P acc.1 →
        Everywhere P (keys.foldl (TcpReassembler.finishStream startsMessage) acc).1 := by
      intro keys
      induction keys with
      | nil => exact fun acc hacc => hacc
      | cons key keys ih =>
        exact fun acc hacc => ih _ (hacc.finishStream hclosed startsMessage acc key)
    exact hfold keys (r, []) h

end Everywhere

def Counted (r : TcpReassembler) : Prop := Everywhere (Drifts 0) r

theorem Everywhere.opened {st : TcpStream} (h : st.buffer = .empty) (hbytes : st.bufferedBytes = 0) :
    st.Drifts 0 ∧ st.Filled := by
  constructor
  · rw [Drifts, heldBytes, h, hbytes]
    rfl
  · intro e he
    rw [h] at he
    exact absurd he not_mem_nil

theorem Everywhere.recordedOn (h : Everywhere P r)
    (hnew : ∀ st : TcpStream, st.buffer = .empty → st.bufferedBytes = 0 → P st) (now : Instant)
    (seq : BitVec 32) (p : ParsedPacket) : P (r.recordedOn now seq p) := by
  rw [TcpReassembler.recordedOn]
  cases hcontinued : r.continued p with
  | none => exact hnew _ rfl rfl
  | some st =>
    rw [continued] at hcontinued
    exact h p.streamKey st (filter_eq_some_iff.mp hcontinued).1

inductive Call
  | insert (now : Instant) (p : ParsedPacket)
  | finish (walk : List TcpStreamKey → List TcpStreamKey)
  | sweep (now : Instant)
  | takeResync (key : TcpStreamKey)

def Call.apply (env : ReassemblyEnv) (r : TcpReassembler) : Call → TcpReassembler
  | .insert now p => (r.insert env now p).1
  | .finish walk => (r.finish walk).1
  | .sweep now => r.sweep now
  | .takeResync key => (r.takeResync key).1

/-- The call buffers a segment under a number that holds one already, on a stream it does not
close. -/
def Call.Replaces (r : TcpReassembler) : Call → Prop
  | .insert _ p => ∃ flags seq st, p.tcpFlags = some flags ∧ p.tcpSeq = some seq ∧
      flags.rst = false ∧ flags.fin = false ∧ flags.syn = false ∧ p.payload ≠ [] ∧
      r.continued p = some st ∧ (st.buffer.get? seq).isSome = true
  | _ => False

theorem Everywhere.insert_rst (h : Everywhere P r) (hflags : p.tcpFlags = some flags)
    (hrst : flags.rst = true) : Everywhere P (r.insert env now p).1 := by
  intro key st hget
  apply h key st
  cases hseq : p.tcpSeq with
  | none =>
    simp only [TcpReassembler.insert, hflags, hseq] at hget
    exact hget
  | some seq =>
    simp only [TcpReassembler.insert, hflags, hseq, hrst, if_true] at hget
    exact within_remove r p.streamKey key st hget

section

variable (hfilled : Everywhere Filled r)
include hfilled

theorem replacedBytes_pos_iff (now : Instant) (flags : TcpFlags) (seq : BitVec 32)
    (p : ParsedPacket) :
    0 < (r.recordedOn now seq p).replacedBytes flags seq p ↔
      flags.syn = false ∧ p.payload ≠ [] ∧
        ∃ st, r.continued p = some st ∧ (st.buffer.get? seq).isSome = true := by
  rw [replacedBytes]
  by_cases hnone : (flags.syn || p.payload.isEmpty) = true
  · rw [if_pos hnone]
    refine iff_of_false (Nat.lt_irrefl 0) ?_
    rintro ⟨hsyn, hpayload, -⟩
    rw [hsyn, Bool.false_or, List.isEmpty_iff] at hnone
    exact hpayload hnone
  · rw [if_neg hnone]
    rw [Bool.or_eq_true, not_or, Bool.not_eq_true, List.isEmpty_iff] at hnone
    rw [and_iff_right hnone.1, and_iff_right hnone.2, TcpReassembler.recordedOn]
    cases hcontinued : r.continued p with
    | none =>
      refine iff_of_false (Nat.lt_irrefl 0) ?_
      rintro ⟨st, hst, -⟩
      cases hst
    | some st =>
      rw [continued] at hcontinued
      have hst := hfilled p.streamKey st (filter_eq_some_iff.mp hcontinued).1
      rw [getD_some]
      cases hget : st.buffer.get? seq with
      | none =>
        refine iff_of_false (Nat.lt_irrefl 0) ?_
        rintro ⟨st', hst', hsome⟩
        rw [← some.inj hst', hget] at hsome
        cases hsome
      | some data =>
        refine iff_of_true ?_ ⟨st, rfl, by rw [hget]; rfl⟩
        exact length_pos_of_ne_nil (hst _ (OrderedMap.get?_eq_some_iff.mp hget))

theorem counted_insert_iff (h : Counted r) :
    Counted (r.insert env now p).1 ↔ ¬ (Call.insert now p).Replaces r := by
  rw [Call.Replaces]
  cases hflags : p.tcpFlags with
  | none =>
    have hsame : (r.insert env now p).1 = r := by simp only [insert, hflags]
    rw [hsame]
    refine iff_of_true h ?_
    rintro ⟨flags, seq, st, hnone, -⟩
    cases hnone
  | some flags =>
    cases hseq : p.tcpSeq with
    | none =>
      have hsame : (r.insert env now p).1 = r := by simp only [insert, hflags, hseq]
      rw [hsame]
      refine iff_of_true h ?_
      rintro ⟨flags, seq, st, -, hnone, -⟩
      cases hnone
    | some seq =>
      by_cases hrst : flags.rst = true
      · refine iff_of_true (Everywhere.insert_rst h hflags hrst) ?_
        rintro ⟨flags', seq', st, hflags', -, hnot, -⟩
        rw [← some.inj hflags', hrst] at hnot
        cases hnot
      rw [Bool.not_eq_true] at hrst
      have hreplaces := replacedBytes_pos_iff hfilled now flags seq p
      obtain ⟨hothers, hself⟩ := insert_streams env now r hflags hseq hrst
      have hrecorded : (r.recordedOn now seq p).Drifts 0 :=
        h.recordedOn (fun _ hbuffer hbytes => (Everywhere.opened hbuffer hbytes).1) now seq p
      split_ifs at hself with hclosed
      · -- a FIN takes the stream with it
        refine iff_of_true ?_ ?_
        · intro key st hget
          by_cases hkey : key = p.streamKey
          · rw [hkey, hself] at hget
            cases hget
          · exact h key st (hothers key hkey st hget)
        · rintro ⟨flags', seq', st, hflags', -, -, hfin, -⟩
          rw [some.inj hflags', hfin] at hclosed
          cases hclosed
      · obtain ⟨st, hst, hsheds⟩ := hself
        have hdrift := hsheds.drifts _ (drifts_takeSegment now flags seq p hrecorded)
        have hcounted : Counted (r.insert env now p).1 ↔
            (r.recordedOn now seq p).replacedBytes flags seq p = 0 := by
          constructor
          · intro hall
            have hzero := hall p.streamKey st hst
            rw [Drifts] at hdrift hzero
            omega
          · intro hzero key st' hget
            by_cases hkey : key = p.streamKey
            · rw [hkey, hst] at hget
              rw [← some.inj hget, ← hzero]
              exact hdrift
            · exact h key st' (hothers key hkey st' hget)
        rw [hcounted, ← Nat.le_zero, ← Nat.not_lt, hreplaces]
        refine not_congr ⟨?_, ?_⟩
        · rintro ⟨hsyn, hpayload, st', hcontinued, hsome⟩
          rw [hsyn, Bool.false_and, Bool.not_false, Bool.and_true, Bool.not_eq_true] at hclosed
          exact ⟨flags, seq, st', rfl, rfl, hrst, hclosed, hsyn, hpayload, hcontinued, hsome⟩
        · rintro ⟨flags', seq', st', hflags', hseq', -, -, hsyn, hpayload, hcontinued, hsome⟩
          rw [← some.inj hflags'] at hsyn
          rw [← some.inj hseq'] at hsome
          exact ⟨hsyn, hpayload, st', hcontinued, hsome⟩

theorem filled_insert : Everywhere Filled (r.insert env now p).1 := by
  cases hflags : p.tcpFlags with
  | none =>
    have hsame : (r.insert env now p).1 = r := by simp only [insert, hflags]
    rw [hsame]
    exact hfilled
  | some flags =>
    cases hseq : p.tcpSeq with
    | none =>
      have hsame : (r.insert env now p).1 = r := by simp only [insert, hflags, hseq]
      rw [hsame]
      exact hfilled
    | some seq =>
      by_cases hrst : flags.rst = true
      · exact Everywhere.insert_rst hfilled hflags hrst
      rw [Bool.not_eq_true] at hrst
      obtain ⟨hothers, hself⟩ := insert_streams env now r hflags hseq hrst
      have hrecorded : (r.recordedOn now seq p).Filled :=
        hfilled.recordedOn (fun _ hbuffer hbytes => (Everywhere.opened hbuffer hbytes).2) now seq p
      intro key st hget
      by_cases hkey : key = p.streamKey
      · rw [hkey] at hget
        split_ifs at hself
        · rw [hself] at hget
          cases hget
        · obtain ⟨st', hst', hsheds⟩ := hself
          rw [hst'] at hget
          rw [← some.inj hget]
          exact hsheds.filled (hrecorded.takeSegment now flags seq p)
      · exact hfilled key st (hothers key hkey st hget)

theorem filled_apply (call : Call) : Everywhere Filled (call.apply env r) := by
  have hclosed : ∀ st st', Sheds st st' → Filled st → Filled st' := fun _ _ h => h.filled
  cases call with
  | insert now p => exact filled_insert hfilled
  | finish walk => exact hfilled.finish hclosed walk
  | sweep now => exact hfilled.sweep now
  | takeResync key => exact hfilled.takeResync hclosed key

theorem counted_apply_iff (h : Counted r) (call : Call) :
    Counted (call.apply env r) ↔ ¬ call.Replaces r := by
  have hclosed : ∀ st st', Sheds st st' → Drifts 0 st → Drifts 0 st' := fun _ _ hs => hs.drifts 0
  cases call with
  | insert now p => exact counted_insert_iff hfilled h
  | finish walk => exact iff_of_true (h.finish hclosed walk) not_false
  | sweep now => exact iff_of_true (h.sweep now) not_false
  | takeResync key => exact iff_of_true (h.takeResync hclosed key) not_false

end

def applyAll (env : ReassemblyEnv) (r : TcpReassembler) (calls : List Call) : TcpReassembler :=
  calls.foldl (fun r call => call.apply env r) r

theorem filled_applyAll (env : ReassemblyEnv) (hfilled : Everywhere Filled r)
    (calls : List Call) :
    Everywhere Filled (applyAll env r calls) := by
  induction calls generalizing r with
  | nil => exact hfilled
  | cons call calls ih => exact ih (filled_apply hfilled call)

/-- In a run from an empty reassembler, the streams count exactly the bytes they hold at every
point if and only if no call buffers a segment under a number that already holds one. -/
theorem buffered_bytes_exact_iff (env : ReassemblyEnv) (maxEntries ttl : ℕ)
    (resync : Option (List UInt8 → Bool)) (calls : List Call) :
    (∀ before, before <+: calls → Counted (applyAll env { maxEntries, ttl, resync } before)) ↔
      ∀ (before : List Call) (call : Call) after, calls = before ++ call :: after →
        ¬ call.Replaces (applyAll env { maxEntries, ttl, resync } before) := by
  have hnone : ∀ P, Everywhere P { maxEntries, ttl, resync } := by
    intro P key st hget
    cases hget
  induction calls using List.reverseRecOn with
  | nil =>
    refine iff_of_true ?_ ?_
    · intro before hbefore
      rw [prefix_nil.mp hbefore]
      exact hnone _
    · intro before call after hsplit
      simp at hsplit
  | append_singleton calls call ih =>
    have hfilled := filled_applyAll env (hnone Filled) calls
    have hlast : applyAll env { maxEntries, ttl, resync } (calls ++ [call]) =
        call.apply env (applyAll env { maxEntries, ttl, resync } calls) := by
      rw [applyAll, foldl_append]
      rfl
    constructor
    · intro hall before call' after hsplit
      have hcounted : ∀ before, before <+: calls →
          Counted (applyAll env { maxEntries, ttl, resync } before) :=
        fun before hbefore => hall before (hbefore.trans (prefix_append _ _))
      rcases concat_eq_append_cons_iff.mp hsplit with ⟨rest, -, hrest⟩ | ⟨-, rfl, rfl⟩
      · exact ih.mp hcounted before call' rest hrest
      · rw [← counted_apply_iff hfilled (hcounted _ (prefix_refl _)), ← hlast]
        exact hall _ (prefix_refl _)
    · intro hnever before hbefore
      have hcounted := ih.mpr (fun before call' after hsplit =>
        hnever before call' (after ++ [call]) (by rw [hsplit, append_assoc]; rfl))
      rcases prefix_concat_iff.mp hbefore with rfl | hbefore
      · rw [hlast, counted_apply_iff hfilled (hcounted _ (prefix_refl _))]
        exact hnever calls call [] rfl
      · exact hcounted before hbefore

/-- A segment that waits behind a hole and arrives again is counted twice. -/
theorem buffered_bytes_drift :
    let waiting := Call.insert 1 (dataPacket { ack := true } 105 [4, 5, 6])
    let calls := [Call.insert 0 (dataPacket { syn := true } 99 []), waiting, waiting]
    ((applyAll .plain { maxEntries := 10, ttl := 30000000000 } calls).streams.values.map
      (fun st => (st.bufferedBytes, st.heldBytes))) = [(6, 3)] := by
  decide +kernel

end TcpReassembler

end Sipnab
