import Sipnab.Capture.TcpReassembler
import Sipnab.Lib.Cuts

/-!
# What a TCP stream delivers

A stream cut into segments is delivered in order whatever order its segments arrive in: at any time
the segments handed over are the first so many, and every later one that has arrived is buffered
under its sequence number.
-/

namespace Sipnab

open List OrderedMap

/-- A byte stream cut into segments, shorter than half the sequence space, with the sequence number
of its first byte. -/
structure CutStream where
  base : BitVec 32
  segments : List (List UInt8)
  nonempty : ∀ segment ∈ segments, segment ≠ []
  short : segments.flatten.length < 2 ^ 31

namespace CutStream
variable (c : CutStream)

def bytes : List UInt8 := c.segments.flatten

def seqAt (i : ℕ) : BitVec 32 := atOffset c.base (cutOffset c.segments i)

variable {c} {i j : ℕ}

theorem seqAt_inj (hi : i ≤ c.segments.length) (hj : j ≤ c.segments.length) :
    c.seqAt i = c.seqAt j ↔ i = j := by
  have hshort := c.short
  have hoffi := cutOffset_le c.segments i
  have hoffj := cutOffset_le c.segments j
  rw [seqAt, seqAt, atOffset_inj _ (by omega) (by omega), cutOffset_inj c.nonempty hi hj]

theorem seqLt_seqAt_iff (hj : j ≤ c.segments.length) :
    seqLt (c.seqAt i) (c.seqAt j) = true ↔ i < j := by
  have hshort := c.short
  have hoffi := cutOffset_le c.segments i
  have hoffj := cutOffset_le c.segments j
  rw [seqLt, seqAt, seqAt, serialLt_atOffset _ (by omega) (by omega),
    cutOffset_lt_iff c.nonempty hj]

theorem seqAt_succ {data : List UInt8} (h : c.segments[i]? = some data) :
    c.seqAt i + BitVec.ofNat 32 data.length = c.seqAt (i + 1) := by
  rw [seqAt, seqAt, atOffset_add, cutOffset_succ h]

theorem lt_length {data : List UInt8} (h : c.segments[i]? = some data) : i < c.segments.length :=
  (List.getElem?_eq_some_iff.mp h).1

end CutStream

/-! ## Draining -/

namespace TcpStream
variable {c : CutStream} {st : TcpStream} {k : ℕ}

theorem dropSegment_eq (st : TcpStream) (seq : BitVec 32) : ∃ buffer bufferedBytes,
    st.dropSegment seq = { st with buffer, bufferedBytes } ∧
      (∀ s, buffer.get? s = if s = seq then none else st.buffer.get? s) ∧
      buffer.length ≤ st.buffer.length ∧
      ((st.buffer.get? seq).isSome → buffer.length < st.buffer.length) := by
  rw [dropSegment]
  cases hget : st.buffer.get? seq with
  | none =>
    refine ⟨st.buffer, st.bufferedBytes, rfl, ?_, le_refl _, fun h => by cases h⟩
    intro s
    split_ifs with hs
    · rw [hs, hget]
    · rfl
  | some data =>
    have hmem := OrderedMap.get?_eq_some_iff.mp hget
    have hlt : (st.buffer.erase seq).length < st.buffer.length := length_filter_lt hmem (by simp)
    exact ⟨_, _, rfl, fun s => get?_erase _ _ _, hlt.le, fun _ => hlt⟩

theorem foldl_dropSegment_eq (seqs : List (BitVec 32)) (st : TcpStream) : ∃ buffer bufferedBytes,
    seqs.foldl dropSegment st = { st with buffer, bufferedBytes } ∧
      (∀ s, buffer.get? s = if s ∈ seqs then none else st.buffer.get? s) ∧
      buffer.length ≤ st.buffer.length := by
  induction seqs generalizing st with
  | nil =>
    refine ⟨st.buffer, st.bufferedBytes, rfl, ?_, le_refl _⟩
    intro s
    rw [if_neg not_mem_nil]
  | cons seq seqs ih =>
    obtain ⟨buffer, bytes, hdrop, hget, hle, -⟩ := dropSegment_eq st seq
    obtain ⟨buffer', bytes', hfold, hget', hle'⟩ := ih (st.dropSegment seq)
    rw [hdrop] at hfold hget' hle'
    refine ⟨buffer', bytes', ?_, ?_, hle'.trans hle⟩
    · rw [foldl_cons, hdrop, hfold]
    · intro s
      rw [hget']
      rw [hget]
      by_cases hmem : s ∈ seqs
      · rw [if_pos hmem, if_pos (mem_cons_of_mem _ hmem)]
      · by_cases hs : s = seq
        · rw [if_neg hmem, if_pos hs, if_pos (by rw [hs]; exact mem_cons_self)]
        · rw [if_neg hmem, if_neg hs, if_neg (by simp only [mem_cons, hs, hmem, or_self,
            not_false_eq_true])]

theorem foldl_dropSegment_before (st : TcpStream) (seq : BitVec 32)
    (hstale : (st.before seq).isEmpty = false) : ∃ buffer bufferedBytes,
    (st.before seq).foldl dropSegment st = { st with buffer, bufferedBytes } ∧
      (∀ s, buffer.get? s = if s ∈ st.before seq then none else st.buffer.get? s) ∧
      buffer.length < st.buffer.length := by
  obtain ⟨buffer, bytes, hfold, hget, -⟩ := foldl_dropSegment_eq (st.before seq) st
  refine ⟨buffer, bytes, hfold, hget, ?_⟩
  cases hbefore : st.before seq with
  | nil =>
    rw [hbefore] at hstale
    cases hstale
  | cons s rest =>
    have hs : s ∈ st.before seq := by
      rw [hbefore]
      exact mem_cons_self
    obtain ⟨data, hdata⟩ := OrderedMap.mem_keys_iff.mp (mem_of_mem_filter hs)
    obtain ⟨buffer₁, bytes₁, hdrop, -, -, hlt⟩ := dropSegment_eq st s
    obtain ⟨buffer₂, bytes₂, hrest, -, hle⟩ := foldl_dropSegment_eq rest (st.dropSegment s)
    rw [hbefore, foldl_cons, hrest] at hfold
    have hsame : buffer₂ = buffer := congrArg TcpStream.buffer hfold
    rw [hdrop] at hle
    rw [← hsame]
    exact lt_of_le_of_lt hle (hlt (by rw [hdata]; rfl))

/-- The first `k` segments have been delivered, and what is buffered is segments. -/
structure Buffers (c : CutStream) (st : TcpStream) (k : ℕ) : Prop where
  le : k ≤ c.segments.length
  expected : st.expectedSeq = c.seqAt k
  entries : ∀ seq data, st.buffer.get? seq = some data →
    ∃ i, seq = c.seqAt i ∧ c.segments[i]? = some data

/-- The stream after delivering `out` and with it the segments from `k` up to `k'`. -/
structure Drained (c : CutStream) (st st' : TcpStream) (k k' : ℕ) (out : List UInt8) : Prop where
  le : k ≤ k'
  buffers : Buffers c st' k'
  out : (c.segments.take k).flatten ++ out = (c.segments.take k').flatten
  kept : ∀ i, k' ≤ i → i ≤ c.segments.length →
    st'.buffer.get? (c.seqAt i) = st.buffer.get? (c.seqAt i)
  next : st'.buffer.get? (c.seqAt k') = none
  pending : st'.pendingFlush = st.pendingFlush
  synSeen : st'.synSeen = st.synSeen
  initialized : st'.initialized = st.initialized

theorem Buffers.drained_refl (h : Buffers c st k) (hnext : st.buffer.get? (c.seqAt k) = none) :
    Drained c st st k k [] where
  le := le_refl k
  buffers := h
  out := append_nil _
  kept := fun _ _ _ => rfl
  next := hnext
  pending := rfl
  synSeen := rfl
  initialized := rfl

theorem get?_of_length_eq_zero (h : st.buffer.length = 0) (seq : BitVec 32) :
    st.buffer.get? seq = none := by
  rw [get?, eq_nil_of_length_eq_zero h]
  rfl

theorem mem_before_seqAt_iff (h : Buffers c st k) {seq : BitVec 32} :
    seq ∈ st.before (c.seqAt k) ↔ ∃ i < k, seq = c.seqAt i ∧ (st.buffer.get? seq).isSome := by
  rw [before, mem_filter, mem_keys_iff]
  constructor
  · intro hseq
    obtain ⟨⟨data, hdata⟩, hlt⟩ := hseq
    obtain ⟨i, rfl, -⟩ := h.entries seq data hdata
    exact ⟨i, (CutStream.seqLt_seqAt_iff h.le).mp hlt, rfl, by rw [hdata]; rfl⟩
  · intro hseq
    obtain ⟨i, hik, rfl, hsome⟩ := hseq
    exact ⟨Option.isSome_iff_exists.mp hsome, (CutStream.seqLt_seqAt_iff h.le).mpr hik⟩

theorem Buffers.dropStale (h : Buffers c st k)
    (hstale : (st.before (c.seqAt k)).isEmpty = false) : ∃ st₁,
    (st.before (c.seqAt k)).foldl dropSegment st = st₁ ∧ Buffers c st₁ k ∧
      st₁.buffer.length < st.buffer.length ∧
      (∀ i, k ≤ i → i ≤ c.segments.length →
        st₁.buffer.get? (c.seqAt i) = st.buffer.get? (c.seqAt i)) ∧
      st₁.pendingFlush = st.pendingFlush ∧ st₁.synSeen = st.synSeen ∧
      st₁.initialized = st.initialized := by
  obtain ⟨buffer, bytes, hfold, hget, hlt⟩ := foldl_dropSegment_before st _ hstale
  refine ⟨_, hfold, ⟨h.le, h.expected, ?_⟩, hlt, ?_, rfl, rfl, rfl⟩
  · intro seq data hseq
    rw [hget] at hseq
    split_ifs at hseq
    exact h.entries seq data hseq
  · intro i hki hile
    rw [hget, if_neg]
    intro hmem
    obtain ⟨j, hjk, hseq, -⟩ := (mem_before_seqAt_iff h).mp hmem
    have hle := h.le
    rw [CutStream.seqAt_inj hile (by omega)] at hseq
    omega

theorem Buffers.deliver (h : Buffers c st k) {data : List UInt8}
    (hget : st.buffer.get? st.expectedSeq = some data) (bufferedBytes : ℕ) :
    c.segments[k]? = some data ∧ Buffers c { st with
      buffer := st.buffer.erase st.expectedSeq
      expectedSeq := st.expectedSeq + BitVec.ofNat 32 data.length
      bufferedBytes
      delivered := true } (k + 1) := by
  obtain ⟨i, hseq, hdata⟩ := h.entries _ _ hget
  have hi := CutStream.lt_length hdata
  rw [h.expected, CutStream.seqAt_inj h.le hi.le] at hseq
  subst hseq
  refine ⟨hdata, hi, ?_, ?_⟩
  · rw [h.expected]
    exact CutStream.seqAt_succ hdata
  · intro seq data' hseq
    rw [get?_erase] at hseq
    split_ifs at hseq
    exact h.entries seq data' hseq

theorem Buffers.drainLoop (n : ℕ) (h : Buffers c st k) (hn : st.buffer.length ≤ n) :
    ∃ k', Drained c st (drainLoop n st).1 k k' (drainLoop n st).2 := by
  induction n generalizing st k with
  | zero => exact ⟨k, h.drained_refl (get?_of_length_eq_zero (Nat.le_zero.mp hn) _)⟩
  | succ n ih =>
    rw [TcpStream.drainLoop]
    cases hget : st.buffer.get? st.expectedSeq with
    | some data =>
      obtain ⟨hdata, hbuffers⟩ := h.deliver hget (st.bufferedBytes - data.length)
      have hlt : (st.buffer.erase st.expectedSeq).length < st.buffer.length :=
        length_filter_lt (OrderedMap.get?_eq_some_iff.mp hget) (by simp)
      obtain ⟨k', hdrained⟩ := ih hbuffers (by dsimp only; omega)
      have hle := hdrained.le
      refine ⟨k', by omega, hdrained.buffers, ?_, ?_, hdrained.next, hdrained.pending,
        hdrained.synSeen, hdrained.initialized⟩
      · dsimp only
        rw [← hdrained.out, flatten_take_succ hdata, append_assoc]
      · intro i hki hile
        have hne : c.seqAt i ≠ st.expectedSeq := by
          rw [h.expected, Ne, CutStream.seqAt_inj hile h.le]
          omega
        rw [hdrained.kept i hki hile]
        rw [get?_erase, if_neg hne]
    | none =>
      rw [h.expected] at hget ⊢
      by_cases hstale : (st.before (c.seqAt k)).isEmpty = true
      · rw [if_pos hstale]
        exact ⟨k, h.drained_refl hget⟩
      · rw [if_neg hstale]
        obtain ⟨st₁, hst₁, hbuffers, hlt, hkept, hpending, hsyn, hinit⟩ :=
          h.dropStale (Bool.eq_false_iff.mpr hstale)
        rw [hst₁]
        obtain ⟨k', hdrained⟩ := ih hbuffers (by omega)
        have hle := hdrained.le
        refine ⟨k', hle, hdrained.buffers, hdrained.out, ?_, hdrained.next,
          hdrained.pending.trans hpending, hdrained.synSeen.trans hsyn,
          hdrained.initialized.trans hinit⟩
        intro i hki hile
        rw [hdrained.kept i hki hile, hkept i (by omega) hile]

theorem Buffers.drainInOrder (h : Buffers c st k) :
    ∃ k', Drained c st st.drainInOrder.1 k k' st.drainInOrder.2 := h.drainLoop _ (le_refl _)

/-! ## One segment -/

/-- What is known of a stream when the segments `arrived`, each with or without a push, have come
in and `out` has been handed over: the first `k` segments are out, later ones that arrived are
buffered, and a push that came with one of these is pending. -/
structure Delivering (c : CutStream) (arrived : List (ℕ × Bool)) (out : List UInt8)
    (st : TcpStream) (k : ℕ) : Prop where
  buffers : Buffers c st k
  out : out = (c.segments.take k).flatten
  synSeen : st.synSeen = true
  initialized : st.initialized = true
  held : ∀ a ∈ arrived, k ≤ a.1 → (st.buffer.get? (c.seqAt a.1)).isSome = true
  pushed : ∀ a ∈ arrived, a.2 = true → k ≤ a.1 → st.pendingFlush = true

variable {arrived : List (ℕ × Bool)} {out : List UInt8}

theorem takeSegment_eq (now : Instant) {flags : TcpFlags} (seq : BitVec 32) {p : ParsedPacket}
    (hinit : st.initialized = true) (hsyn : st.synSeen = true) (hflag : flags.syn = false)
    (hpayload : p.payload ≠ []) :
    st.takeSegment now flags seq p =
      ({ st with
        lastSeen := now
        lastPacketAt := max st.lastPacketAt p.timestamp
        bufferedBytes := st.bufferedBytes + p.payload.length
        buffer := st.buffer.insert seq p.payload
        pendingFlush := flags.psh || st.pendingFlush }, true) := by
  have hempty : p.payload.isEmpty = false := isEmpty_eq_false_iff.mpr hpayload
  cases hpsh : flags.psh <;>
    simp [takeSegment, anchor, hinit, hsyn, hflag, hempty, hpsh]

theorem Delivering.takeSegment (h : Delivering c arrived out st k) (now : Instant) {i : ℕ}
    {p : ParsedPacket} (hdata : c.segments[i]? = some p.payload) (ack psh : Bool) : ∃ st₁,
    st.takeSegment now { ack, psh } (c.seqAt i) p = (st₁, true) ∧
      Delivering c (arrived ++ [(i, psh)]) out st₁ k ∧
      st₁.pendingFlush = (psh || st.pendingFlush) := by
  have hpayload : p.payload ≠ [] := c.nonempty _ (mem_of_getElem? hdata)
  refine ⟨_, takeSegment_eq now (c.seqAt i) h.initialized h.synSeen rfl hpayload, ?_, rfl⟩
  have hget : ∀ s, (st.buffer.insert (c.seqAt i) p.payload).get? s =
      if s = c.seqAt i then some p.payload else st.buffer.get? s := by
    intro s
    rw [get?_insert]
  constructor
  case buffers =>
    refine ⟨h.buffers.le, h.buffers.expected, ?_⟩
    intro seq data hseq
    rw [hget] at hseq
    split_ifs at hseq with hi
    · exact ⟨i, hi, by rw [hdata, hseq]⟩
    · exact h.buffers.entries seq data hseq
  case out => exact h.out
  case synSeen => exact h.synSeen
  case initialized => exact h.initialized
  case held =>
    intro a ha hka
    rw [hget]
    split_ifs with hi
    · rfl
    · rcases mem_append.mp ha with ha | ha
      · exact h.held a ha hka
      · rw [mem_singleton.mp ha] at hi
        exact absurd rfl hi
  case pushed =>
    intro a ha hpsh hka
    rw [Bool.or_eq_true]
    rcases mem_append.mp ha with ha | ha
    · exact Or.inr (h.pushed a ha hpsh hka)
    · rw [mem_singleton.mp ha] at hpsh
      exact Or.inl hpsh

/-- Draining keeps what is known, with a push that no buffered segment waits for forgotten or
not. -/
theorem Delivering.drain (h : Delivering c arrived out st k)
    (hlt : ∀ a ∈ arrived, a.1 < c.segments.length) : ∃ k',
    st.drainInOrder.1.buffer.get? (c.seqAt k') = none ∧
      st.drainInOrder.1.pendingFlush = st.pendingFlush ∧
      ∀ st₂ : TcpStream, st₂.expectedSeq = st.drainInOrder.1.expectedSeq →
        st₂.buffer = st.drainInOrder.1.buffer → st₂.synSeen = st.drainInOrder.1.synSeen →
        st₂.initialized = st.drainInOrder.1.initialized →
        (st₂.buffer.isEmpty = false → st₂.pendingFlush = st.pendingFlush) →
        Delivering c arrived (out ++ st.drainInOrder.2) st₂ k' := by
  obtain ⟨k', hdrained⟩ := h.buffers.drainInOrder
  have hle := hdrained.le
  refine ⟨k', hdrained.next, hdrained.pending, ?_⟩
  intro st₂ hexpected hbuffer hsyn hinit hpending
  have hheld : ∀ a ∈ arrived, k' ≤ a.1 → (st₂.buffer.get? (c.seqAt a.1)).isSome = true := by
    intro a ha hka
    rw [hbuffer, hdrained.kept a.1 hka (hlt a ha).le]
    exact h.held a ha (by omega)
  constructor
  case buffers =>
    refine ⟨hdrained.buffers.le, hexpected.trans hdrained.buffers.expected, ?_⟩
    rw [hbuffer]
    exact hdrained.buffers.entries
  case out => rw [h.out, hdrained.out]
  case synSeen => rw [hsyn, hdrained.synSeen, h.synSeen]
  case initialized => rw [hinit, hdrained.initialized, h.initialized]
  case held => exact hheld
  case pushed =>
    intro a ha hpsh hka
    rw [hpending, h.pushed a ha hpsh (by omega)]
    obtain ⟨data, hdata⟩ := Option.isSome_iff_exists.mp (hheld a ha hka)
    rw [Bool.eq_false_iff]
    intro hempty
    exact OrderedMap.isEmpty_iff.mp hempty _ (OrderedMap.get?_eq_some_iff.mp hdata)

theorem flatten_drainAsResults (st : TcpStream) :
    st.drainAsResults.2.flatten = st.drainInOrder.2 := by
  rw [drainAsResults]
  dsimp only
  split_ifs with hempty
  · exact (List.isEmpty_iff.mp hempty).symm
  · exact append_nil _

theorem rememberBlocked_eq (st : TcpStream) (p : ParsedPacket) :
    ∃ blockedTemplate, st.rememberBlocked p = { st with blockedTemplate } := by
  rw [rememberBlocked]
  split_ifs
  · exact ⟨st.blockedTemplate, rfl⟩
  · exact ⟨_, rfl⟩
  · exact ⟨_, rfl⟩

theorem flushPendingPush_eq (h : st.pendingFlush = true) :
    ∃ pendingFlush, st.flushPendingPush =
        ({ st.drainInOrder.1 with pendingFlush }, st.drainAsResults.2) ∧
      (st.drainInOrder.1.buffer.isEmpty = false → pendingFlush = st.drainInOrder.1.pendingFlush) := by
  rw [flushPendingPush, if_pos h]
  have hpair : st.drainAsResults = (st.drainInOrder.1, st.drainAsResults.2) := rfl
  rw [hpair]
  dsimp only
  split_ifs with hempty
  · refine ⟨false, rfl, ?_⟩
    intro hnot
    rw [hempty] at hnot
    cases hnot
  · exact ⟨st.drainInOrder.1.pendingFlush, rfl, fun _ => rfl⟩

/-- Handing over keeps what is known, and leaves no segment that could be handed over where a push
was pending. -/
theorem Delivering.release (h : Delivering c arrived out st k)
    (hlt : ∀ a ∈ arrived, a.1 < c.segments.length) (ceiling : ℕ) (p : ParsedPacket) : ∃ k',
    Delivering c arrived (out ++ (st.release ceiling p).2.flatten) (st.release ceiling p).1 k' ∧
      (st.pendingFlush = true → (st.release ceiling p).1.buffer.get? (c.seqAt k') = none) := by
  obtain ⟨k', hnext, hpending, hdrain⟩ := h.drain hlt
  rw [TcpStream.release]
  by_cases hfull : ceiling < st.bufferedBytes
  · rw [if_pos hfull, flatten_drainAsResults]
    exact ⟨k', hdrain _ rfl rfl rfl rfl (fun _ => hpending), fun _ => hnext⟩
  · rw [if_neg hfull]
    by_cases hpush : st.pendingFlush = true
    · obtain ⟨pendingFlush, hflush, hkeeps⟩ := flushPendingPush_eq hpush
      rw [hflush]
      dsimp only
      obtain ⟨blockedTemplate, hblocked⟩ :=
        rememberBlocked_eq { st.drainInOrder.1 with pendingFlush } p
      rw [hblocked, flatten_drainAsResults]
      refine ⟨k', hdrain _ rfl rfl rfl rfl ?_, fun _ => hnext⟩
      intro hnot
      exact (hkeeps hnot).trans hpending
    · obtain ⟨blockedTemplate, hblocked⟩ := rememberBlocked_eq st p
      rw [flushPendingPush, if_neg hpush]
      dsimp only
      rw [hblocked, flatten_nil, append_nil]
      exact ⟨k, ⟨⟨h.buffers.le, h.buffers.expected, h.buffers.entries⟩, h.out, h.synSeen,
        h.initialized, h.held, h.pushed⟩, fun hyes => absurd hyes hpush⟩

end TcpStream

/-! ## Runs -/

namespace TcpReassembler

/-- A packet that carries segment `i` of the stream and neither opens nor closes the connection. -/
structure Carries (c : CutStream) (key : TcpStreamKey) (i : ℕ) (psh : Bool) (p : ParsedPacket) :
    Prop where
  key_eq : p.streamKey = key
  seq : p.tcpSeq = some (c.seqAt i)
  payload : c.segments[i]? = some p.payload
  flags : ∃ ack, p.tcpFlags = some { ack, psh }

/-- A packet that opens the connection with the sequence number before the stream's first. -/
structure Opens (c : CutStream) (key : TcpStreamKey) (p : ParsedPacket) : Prop where
  key_eq : p.streamKey = key
  seq : ∃ seq, p.tcpSeq = some seq ∧ seq + 1 = c.base
  payload : p.payload = []
  flags : ∃ flags, p.tcpFlags = some flags ∧ flags.syn = true ∧ flags.rst = false

/-- The packet neither comes after a silence past the time to live nor makes its stream skip a
hole. -/
def Undisturbed (env : ReassemblyEnv) (now : Instant) (r : TcpReassembler) (p : ParsedPacket) :
    Prop :=
  (r.restartIfSilent p.streamKey p.timestamp).2 = false ∧
    (r.insert env now p).1.gapsSkipped = r.gapsSkipped

instance (env : ReassemblyEnv) (now : Instant) (r : TcpReassembler) (p : ParsedPacket) :
    Decidable (Undisturbed env now r p) := inferInstanceAs (Decidable (_ ∧ _))

section Insert
variable {env : ReassemblyEnv} {now : Instant} {r : TcpReassembler} {p : ParsedPacket}
  {flags : TcpFlags} {seq : BitVec 32}

theorem get?_put (r : TcpReassembler) (key : TcpStreamKey) (st : TcpStream) :
    (r.put key st).streams.get? key = some st := by
  rw [put, IndexMap.insert, IndexMap.get?_alter, if_pos rfl]

theorem restartIfSilent_eq {key : TcpStreamKey} {timestamp : DateTime}
    (h : (r.restartIfSilent key timestamp).2 = false) :
    r.restartIfSilent key timestamp = (r, false) := by
  rw [restartIfSilent] at h ⊢
  split_ifs at h ⊢
  rfl

theorem insert_held {st st₁ : TcpStream} (hflags : p.tcpFlags = some flags)
    (hseq : p.tcpSeq = some seq) (hrst : flags.rst = false) (hfin : flags.fin = false)
    (hheld : r.streams.get? p.streamKey = some st)
    (hsilent : (r.restartIfSilent p.streamKey p.timestamp).2 = false)
    (htake : st.takeSegment now flags seq p = (st₁, true)) :
    r.insert env now p =
      ((r.resyncStream seq p st₁).1.put p.streamKey
          ((r.resyncStream seq p st₁).2.release env.maxTcpBuffer p).1,
        ((r.resyncStream seq p st₁).2.release env.maxTcpBuffer p).2) := by
  have hroom : r.makeRoom env p.streamKey = r := by
    rw [makeRoom, hheld, if_neg]
    intro h
    cases h.1
  simp only [insert, hflags, hseq, hrst, restartIfSilent_eq hsilent, hroom, hheld,
    Option.getD_some, htake, hfin, Bool.false_eq_true, if_false, reduceCtorEq]

theorem resyncStream_eq {st : TcpStream}
    (h : (r.resyncStream seq p st).1.gapsSkipped = r.gapsSkipped) :
    r.resyncStream seq p st = (r, st) := by
  rw [resyncStream] at h ⊢
  split at h
  · exact absurd h (Nat.succ_ne_self _)
  · rfl

theorem insert_syn (env : ReassemblyEnv) (now : Instant) (r : TcpReassembler)
    (hflags : p.tcpFlags = some flags)
    (hseq : p.tcpSeq = some seq) (hsyn : flags.syn = true) (hrst : flags.rst = false)
    (hpayload : p.payload = []) :
    ∃ (r' : TcpReassembler) (st : TcpStream), r.insert env now p = (r'.put p.streamKey st, []) ∧
      st.expectedSeq = seq + 1 ∧ st.buffer = .empty ∧ st.synSeen = true ∧
      st.initialized = true := by
  have htake : ∀ st : TcpStream, ∃ st₁, st.takeSegment now flags seq p = (st₁, false) ∧
      st₁.expectedSeq = seq + 1 ∧ st₁.buffer = .empty ∧ st₁.synSeen = true ∧
      st₁.initialized = true := by
    intro st
    rw [TcpStream.takeSegment, hsyn, hpayload]
    exact ⟨_, rfl, rfl, rfl, rfl, rfl⟩
  simp only [insert, hflags, hseq, hrst, Bool.false_eq_true, if_false]
  obtain ⟨st₁, htaken, hfields⟩ := htake
    ((((r.restartIfSilent p.streamKey p.timestamp).1.makeRoom env p.streamKey).streams.get?
      p.streamKey).getD (opened now seq p (r.restartIfSilent p.streamKey p.timestamp).2))
  rw [htaken]
  exact ⟨_, st₁, rfl, hfields⟩

end Insert

/-- One packet, what it releases put behind what was handed over before. -/
def deliver (env : ReassemblyEnv) (acc : TcpReassembler × List UInt8) (e : Instant × ParsedPacket) :
    TcpReassembler × List UInt8 :=
  ((acc.1.insert env e.1 e.2).1, acc.2 ++ (acc.1.insert env e.1 e.2).2.flatten)

structure Arrival (c : CutStream) (key : TcpStreamKey) where
  segment : ℕ
  psh : Bool
  now : Instant
  packet : ParsedPacket
  carries : Carries c key segment psh packet

section Run
variable (env : ReassemblyEnv) (r : TcpReassembler) (c : CutStream) (key : TcpStreamKey)
  (opening : Instant × ParsedPacket)

/-- The reassembler and everything it handed over, after the opening packet and the arrivals. -/
def received (arrivals : List (Arrival c key)) : TcpReassembler × List UInt8 :=
  (opening :: arrivals.map (fun a => (a.now, a.packet))).foldl (deliver env) (r, [])

/-- No arrival comes after a silence past the time to live or makes the stream skip a hole. -/
def Calm (arrivals : List (Arrival c key)) : Prop :=
  ∀ n (_ : n < arrivals.length), Undisturbed env arrivals[n].now
    (received env r c key opening (arrivals.take n)).1 arrivals[n].packet

variable {env r c key opening} {arrivals : List (Arrival c key)}

theorem received_concat (a : Arrival c key) :
    received env r c key opening (arrivals ++ [a]) =
      deliver env (received env r c key opening arrivals) (a.now, a.packet) := by
  rw [received, map_append, ← cons_append, foldl_append]
  rfl

theorem Calm.of_concat {a : Arrival c key} (h : Calm env r c key opening (arrivals ++ [a])) :
    Calm env r c key opening arrivals ∧
      Undisturbed env a.now (received env r c key opening arrivals).1 a.packet := by
  constructor
  · intro n hn
    have hstep := h n (by rw [length_append]; omega)
    rw [take_append_of_le_length hn.le, getElem_append_left hn] at hstep
    exact hstep
  · have hstep := h arrivals.length (by rw [length_append, length_singleton]; omega)
    rw [take_left, getElem_concat_length rfl] at hstep
    exact hstep

def brought (arrivals : List (Arrival c key)) : List (ℕ × Bool) :=
  arrivals.map (fun a => (a.segment, a.psh))

theorem segment_lt (a : Arrival c key) : a.segment < c.segments.length :=
  CutStream.lt_length a.carries.payload

/-- One arrival: the stream takes it and hands over what it can, all of it where a push is
pending. -/
theorem insert_arrival {r : TcpReassembler} {st : TcpStream} {out : List UInt8} {k : ℕ}
    (a : Arrival c key) (hheld : r.streams.get? key = some st)
    (h : st.Delivering c (brought arrivals) out k)
    (hcalm : Undisturbed env a.now r a.packet) : ∃ st' k',
    (r.insert env a.now a.packet).1.streams.get? key = some st' ∧
      st'.Delivering c (brought (arrivals ++ [a]))
        (out ++ (r.insert env a.now a.packet).2.flatten) k' ∧
      (a.psh = true ∨ st.pendingFlush = true → st'.buffer.get? (c.seqAt k') = none) := by
  obtain ⟨ack, hflags⟩ := a.carries.flags
  obtain ⟨st₁, htake, htaken, hpending⟩ := h.takeSegment a.now a.carries.payload ack a.psh
  have hkey := a.carries.key_eq
  obtain ⟨hsilent, hgaps⟩ := hcalm
  rw [← hkey] at hheld
  have hinsert : r.insert env a.now a.packet = _ :=
    insert_held hflags a.carries.seq rfl rfl hheld hsilent htake
  rw [hinsert] at hgaps ⊢
  rw [resyncStream_eq hgaps]
  have hlt : ∀ b ∈ brought (arrivals ++ [a]), b.1 < c.segments.length := by
    intro b hb
    obtain ⟨a', -, rfl⟩ := List.mem_map.mp hb
    exact segment_lt a'
  have hbrought : brought (arrivals ++ [a]) = brought arrivals ++ [(a.segment, a.psh)] := map_append
  rw [← hbrought] at htaken
  obtain ⟨k', hreleased, hnext⟩ := htaken.release hlt env.maxTcpBuffer a.packet
  refine ⟨_, k', ?_, hreleased, ?_⟩
  · rw [hkey]
    exact get?_put r key _
  · intro hpush
    apply hnext
    rw [hpending, Bool.or_eq_true]
    exact hpush

theorem exists_delivering (hopens : Opens c key opening.2)
    (hcalm : Calm env r c key opening arrivals) : ∃ st k,
    (received env r c key opening arrivals).1.streams.get? key = some st ∧
      st.Delivering c (brought arrivals) (received env r c key opening arrivals).2 k := by
  induction arrivals using List.reverseRecOn with
  | nil =>
    obtain ⟨seq, hseq, hbase⟩ := hopens.seq
    obtain ⟨flags, hflags, hsyn, hrst⟩ := hopens.flags
    obtain ⟨r', st, hinsert, hexpected, hbuffer, hsynSeen, hinit⟩ :=
      insert_syn env opening.1 r hflags hseq hsyn hrst hopens.payload
    have hreceived : received env r c key opening [] = (r'.put key st, []) := by
      rw [received, map_nil, foldl_cons, foldl_nil, deliver, hinsert, hopens.key_eq]
      rfl
    rw [hreceived, get?_put]
    refine ⟨st, 0, rfl, ⟨Nat.zero_le _, ?_, ?_⟩, rfl, hsynSeen, hinit, ?_, ?_⟩
    · rw [hexpected, hbase, CutStream.seqAt, cutOffset, atOffset]
      exact (BitVec.add_zero _).symm
    · intro seq data hget
      rw [hbuffer] at hget
      cases hget
    · intro a ha
      exact absurd ha not_mem_nil
    · intro a ha
      exact absurd ha not_mem_nil
  | append_singleton arrivals a ih =>
    obtain ⟨hbefore, hlast⟩ := hcalm.of_concat
    obtain ⟨st, k, hheld, hdelivering⟩ := ih hbefore
    obtain ⟨st', k', hheld', hdelivering', -⟩ := insert_arrival a hheld hdelivering hlast
    rw [received_concat]
    exact ⟨st', k', hheld', hdelivering'⟩

/-- What is handed over is always the beginning of the stream. Once every segment has arrived, and
the last arrival or one whose segment was still held back came with a push, it is the whole
stream. -/
theorem received_in_order (env : ReassemblyEnv) (r : TcpReassembler) (c : CutStream)
    (key : TcpStreamKey) (opening : Instant × ParsedPacket) (hopens : Opens c key opening.2)
    (arrivals : List (Arrival c key)) (hcalm : Calm env r c key opening arrivals) :
    (received env r c key opening arrivals).2 <+: c.bytes ∧
      ∀ (before : List (Arrival c key)) (last : Arrival c key), arrivals = before ++ [last] →
        (∀ i < c.segments.length, ∃ a ∈ arrivals, a.segment = i) →
        (last.psh = true ∨ ∃ a ∈ before, a.psh = true ∧
          (received env r c key opening before).2.length ≤ cutOffset c.segments a.segment) →
        (received env r c key opening arrivals).2 = c.bytes := by
  constructor
  · obtain ⟨st, k, -, hdelivering⟩ := exists_delivering hopens hcalm
    rw [hdelivering.out]
    exact prefix_flatten_take _ k
  · intro before last hsplit hall hpush
    subst hsplit
    obtain ⟨hbefore, hlast⟩ := hcalm.of_concat
    obtain ⟨st, k, hheld, hdelivering⟩ := exists_delivering hopens hbefore
    obtain ⟨st', k', hheld', hdelivering', hdrained⟩ := insert_arrival last hheld hdelivering hlast
    have hnext : st'.buffer.get? (c.seqAt k') = none := by
      apply hdrained
      rcases hpush with hpush | ⟨a, ha, hpsh, hbeyond⟩
      · exact Or.inl hpush
      · -- a push held back with its segment is pending
        right
        apply hdelivering.pushed (a.segment, a.psh) (List.mem_map_of_mem ha) hpsh
        by_contra hk
        have hlt : a.segment < k := Nat.lt_of_not_le hk
        have hoff := cutOffset_lt c.nonempty hlt hdelivering.buffers.le
        rw [hdelivering.out] at hbeyond
        exact absurd hbeyond (Nat.not_le_of_lt hoff)
    -- the next segment to hand over would have arrived and be buffered
    have hend : k' = c.segments.length := by
      by_contra hne
      have hle := hdelivering'.buffers.le
      obtain ⟨a, ha, hseg⟩ := hall k' (by omega)
      have hsome := hdelivering'.held (a.segment, a.psh) (List.mem_map_of_mem ha) hseg.ge
      rw [hseg, hnext] at hsome
      cases hsome
    rw [received_concat]
    change _ ++ _ = _
    rw [hdelivering'.out, hend, take_length]
    rfl

end Run

/-! ## A stream across the wrap -/

/-- Four bytes in two segments, the first of which ends past the last sequence number. -/
def wrapping : CutStream where
  base := 0xFFFFFFFE
  segments := [[1, 2, 3], [4]]
  nonempty := by decide
  short := by decide

def dataPacket (flags : TcpFlags) (seq : BitVec 32) (payload : List UInt8) : ParsedPacket where
  timestamp := 0
  srcAddr := .v4 0x0A000001
  dstAddr := .v4 0x0A000002
  srcPort := 5060
  dstPort := 5060
  payload
  tcpSeq := some seq
  tcpFlags := some flags

/-- The second segment comes first, with a push, and both are delivered when the first one
comes. -/
theorem received_in_order_wrapping : let opening := (0, dataPacket { syn := true } 0xFFFFFFFD [])
    let key := opening.2.streamKey
    let second : Arrival wrapping key := ⟨1, true, 1,
      dataPacket { ack := true, psh := true } 1 [4], rfl, rfl, rfl, true, rfl⟩
    let first : Arrival wrapping key := ⟨0, false, 2,
      dataPacket { ack := true } 0xFFFFFFFE [1, 2, 3], rfl, rfl, rfl, true, rfl⟩
    (received .plain { maxEntries := 10, ttl := 30000000000 } wrapping key opening
      [second, first]).2 = [1, 2, 3, 4] := by
  intro opening key second first
  have hopens : Opens wrapping key opening.2 := ⟨rfl, ⟨0xFFFFFFFD, rfl, by decide⟩, rfl, _, rfl, rfl, rfl⟩
  have hcalm : Calm .plain { maxEntries := 10, ttl := 30000000000 } wrapping key opening
      [second, first] := by
    unfold Calm
    decide +kernel
  have hall : ∀ i < wrapping.segments.length, ∃ a ∈ [second, first], a.segment = i := by
    decide
  have hpush : first.psh = true ∨ ∃ a ∈ [second], a.psh = true ∧
      (received .plain { maxEntries := 10, ttl := 30000000000 } wrapping key opening
        [second]).2.length ≤ cutOffset wrapping.segments a.segment := by
    decide +kernel
  exact (received_in_order .plain _ wrapping key opening hopens [second, first] hcalm).2
    [second] first rfl hall hpush

end TcpReassembler

end Sipnab
