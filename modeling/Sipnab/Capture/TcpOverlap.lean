import Sipnab.Capture.TcpDelivery

/-!
# Overlapping segments

Segments of one byte stream may overlap: a retransmission need not be cut where the original was.
Segments are looked up by where they start and dropped when they start too early, so bytes are kept
as long as no segment lies across the next expected byte or across the end of another. Such a stream
hands over every byte that came in behind a push, up to the first one missing.
-/

namespace Sipnab

open List OrderedMap

def maxWindow : ℕ := 2 ^ 30

def Laminar (x : ℤ) (m : ℕ) (y : ℤ) (n : ℕ) : Prop :=
  x + m ≤ y ∨ y + n ≤ x ∨ (x ≤ y ∧ y + n ≤ x + m) ∨ (y ≤ x ∧ x + m ≤ y + n)

instance (x : ℤ) (m : ℕ) (y : ℤ) (n : ℕ) : Decidable (Laminar x m y n) :=
  inferInstanceAs (Decidable (_ ∨ _))

theorem Laminar.symm {x y : ℤ} {m n : ℕ} (h : Laminar x m y n) : Laminar y n x m := by
  unfold Laminar at h ⊢
  omega

theorem Laminar.refl (x : ℤ) (m : ℕ) : Laminar x m x m := by
  unfold Laminar
  omega

namespace TcpStream

/-- How far ahead of the next expected byte a number lies, negative behind it. -/
def lead (st : TcpStream) (seq : BitVec 32) : ℤ := (seq - st.expectedSeq).toInt

/-- The stream can take a segment of the byte stream without losing bytes: the segment is within a
window of the `d` bytes handed over, does not reach across the next expected byte, lies across the
end of no buffered segment, and is no shorter than the one it replaces. -/
structure Accommodates (st : TcpStream) (d offset : ℕ) (seq : BitVec 32) (data : List UInt8) :
    Prop where
  window : d ≤ offset + maxWindow ∧ offset + data.length ≤ d + maxWindow
  beside : d ≤ offset ∨ offset + data.length ≤ d
  laminar : ∀ e ∈ st.buffer.entries, Laminar (st.lead seq) data.length (st.lead e.1) e.2.length
  longer : ∀ held ∈ st.buffer.get? seq, held.length ≤ data.length

instance (st : TcpStream) (d offset : ℕ) (seq : BitVec 32) (data : List UInt8) :
    Decidable (st.Accommodates d offset seq data) :=
  decidable_of_iff
    ((d ≤ offset + maxWindow ∧ offset + data.length ≤ d + maxWindow) ∧
      (d ≤ offset ∨ offset + data.length ≤ d) ∧
      (∀ e ∈ st.buffer.entries, Laminar (st.lead seq) data.length (st.lead e.1) e.2.length) ∧
      (∀ held ∈ st.buffer.get? seq, held.length ≤ data.length))
    ⟨fun h => ⟨h.1, h.2.1, h.2.2.1, h.2.2.2⟩, fun h => ⟨h.window, h.beside, h.laminar, h.longer⟩⟩

/-- A segment is buffered at an offset of the byte stream, within a window of `w`. -/
structure HeldAt (base : BitVec 32) (w : ℕ) (st : TcpStream) (o : ℕ) (data : List UInt8) :
    Prop where
  get? : st.buffer.get? (atOffset base o) = some data
  low : w ≤ o + maxWindow
  high : o + data.length ≤ w + maxWindow

/-- Bytes up to `d` have been handed over. What is buffered is pieces of the byte stream in a window
of `w`, none across byte `d`, none across the end of another. -/
structure Holding (S : List UInt8) (base : BitVec 32) (w : ℕ) (st : TcpStream) (d : ℕ) : Prop where
  expected : st.expectedSeq = atOffset base d
  le : d ≤ S.length
  window : w ≤ d ∧ d ≤ w + maxWindow
  entries : ∀ seq data, st.buffer.get? seq = some data →
    data ≠ [] ∧ ∃ o, seq = atOffset base o ∧ HeldAt base w st o data ∧ data <+: S.drop o
  beside : ∀ o data, HeldAt base w st o data → d ≤ o ∨ o + data.length ≤ d
  laminar : ∀ o data o' data', HeldAt base w st o data → HeldAt base w st o' data' →
    Laminar o data.length o' data'.length

variable {S : List UInt8} {base : BitVec 32} {w d : ℕ} {st : TcpStream} {o o' : ℕ}
  {data data' : List UInt8}

theorem Holding.ne_nil (h : Holding S base w st d) (hheld : HeldAt base w st o data) :
    0 < data.length := length_pos_of_ne_nil (h.entries _ _ hheld.get?).1

theorem offset_eq_of_near (hw : w ≤ d ∧ d ≤ w + maxWindow) (hlow : w ≤ o + maxWindow)
    (hhigh : o ≤ w + maxWindow) : atOffset base o = atOffset base d ↔ o = d := by
  unfold maxWindow at *
  exact atOffset_inj_of_near base (by omega) (by omega)

theorem HeldAt.seqLt_iff (h : HeldAt base w st o data) (hw : w ≤ d ∧ d ≤ w + maxWindow)
    (hdata : 0 < data.length) : seqLt (atOffset base o) (atOffset base d) = true ↔ o < d := by
  have hlow := h.low
  have hhigh := h.high
  unfold maxWindow at *
  exact serialLt_atOffset_of_near base (by omega) (by omega)

theorem Holding.inj (h : Holding S base w st d) (hheld : HeldAt base w st o data)
    (hheld' : HeldAt base w st o' data') : atOffset base o = atOffset base o' ↔ o = o' := by
  have hlow := hheld.low
  have hhigh := hheld.high
  have hlow' := hheld'.low
  have hhigh' := hheld'.high
  have hpos := h.ne_nil hheld
  have hpos' := h.ne_nil hheld'
  unfold maxWindow at *
  exact atOffset_inj_of_near base (by omega) (by omega)

/-! ## Draining -/

variable {st' : TcpStream} {d' : ℕ}

theorem HeldAt.of_within (h : HeldAt base w st' o data)
    (hwithin : ∀ seq data, st'.buffer.get? seq = some data → st.buffer.get? seq = some data) :
    HeldAt base w st o data := ⟨hwithin _ _ h.get?, h.low, h.high⟩

/-- The stream after handing over `out`, the bytes from `d` up to `d'`. -/
structure Advances (S : List UInt8) (base : BitVec 32) (w : ℕ) (st st' : TcpStream) (d d' : ℕ)
    (out : List UInt8) : Prop where
  le : d ≤ d'
  holding : Holding S base w st' d'
  out : S.take d ++ out = S.take d'
  taken : ∀ i, d ≤ i → i < d' → ∃ o data, HeldAt base w st o data ∧ o ≤ i ∧ i < o + data.length
  kept : ∀ o data, HeldAt base w st o data → d' < o + data.length → HeldAt base w st' o data
  within : ∀ seq data, st'.buffer.get? seq = some data → st.buffer.get? seq = some data
  pending : st'.pendingFlush = st.pendingFlush
  synSeen : st'.synSeen = st.synSeen
  initialized : st'.initialized = st.initialized

theorem Holding.advances_refl (h : Holding S base w st d) : Advances S base w st st d d [] where
  le := le_refl d
  holding := h
  out := append_nil _
  taken := fun _ hlow hhigh => absurd hlow (Nat.not_le_of_lt hhigh)
  kept := fun _ _ hheld _ => hheld
  within := fun _ _ h => h
  pending := rfl
  synSeen := rfl
  initialized := rfl

theorem Advances.trans {st'' : TcpStream} {d'' : ℕ} {out out' : List UInt8}
    (h : Advances S base w st st' d d' out) (h' : Advances S base w st' st'' d' d'' out') :
    Advances S base w st st'' d d'' (out ++ out') where
  le := h.le.trans h'.le
  holding := h'.holding
  out := by rw [← append_assoc, h.out, h'.out]
  taken := by
    intro i hlow hhigh
    by_cases hmid : i < d'
    · exact h.taken i hlow hmid
    · obtain ⟨o, data, hheld, hrange⟩ := h'.taken i (Nat.le_of_not_lt hmid) hhigh
      exact ⟨o, data, hheld.of_within h.within, hrange⟩
  kept := fun o data hheld hlt => h'.kept o data (h.kept o data hheld (lt_of_le_of_lt h'.le hlt)) hlt
  within := fun seq data hget => h.within seq data (h'.within seq data hget)
  pending := h'.pending.trans h.pending
  synSeen := h'.synSeen.trans h.synSeen
  initialized := h'.initialized.trans h.initialized

section

variable (h : Holding S base w st d)
include h

theorem Holding.of_within
    (hwithin : ∀ seq data, st'.buffer.get? seq = some data → st.buffer.get? seq = some data)
    (hexpected : st'.expectedSeq = atOffset base d') (hle : d' ≤ S.length)
    (hwindow : w ≤ d' ∧ d' ≤ w + maxWindow)
    (hbeside : ∀ o data, HeldAt base w st' o data → d' ≤ o ∨ o + data.length ≤ d') :
    Holding S base w st' d' where
  expected := hexpected
  le := hle
  window := hwindow
  entries := by
    intro seq data hget
    obtain ⟨hne, o, hseq, hheld, hpiece⟩ := h.entries seq data (hwithin seq data hget)
    exact ⟨hne, o, hseq, ⟨by rw [← hseq]; exact hget, hheld.low, hheld.high⟩, hpiece⟩
  beside := hbeside
  laminar := fun o data o' data' hheld hheld' =>
    h.laminar o data o' data' (hheld.of_within hwithin) (hheld'.of_within hwithin)

theorem Holding.deliver (hget : st.buffer.get? st.expectedSeq = some data) (bufferedBytes : ℕ) :
    Advances S base w st { st with
      buffer := st.buffer.erase st.expectedSeq
      expectedSeq := st.expectedSeq + BitVec.ofNat 32 data.length
      bufferedBytes
      delivered := true } d (d + data.length) data := by
  obtain ⟨hne, o, hseq, hheld, hpiece⟩ := h.entries _ _ hget
  have hpos := h.ne_nil hheld
  have hhigh := hheld.high
  rw [h.expected, eq_comm, offset_eq_of_near h.window hheld.low (by omega)] at hseq
  subst hseq
  have hwithin : ∀ seq data, (st.buffer.erase st.expectedSeq).get? seq = some data →
      st.buffer.get? seq = some data := by
    intro seq data' hseq
    rw [get?_erase] at hseq
    split_ifs at hseq
    exact hseq
  have hlength : o + data.length ≤ S.length := by
    have hlen := hpiece.length_le
    rw [length_drop] at hlen
    have hle := h.le
    omega
  constructor
  case le => omega
  case holding =>
    refine h.of_within hwithin ?_ hlength ⟨by have := h.window; omega, hhigh⟩ ?_
    · dsimp only
      rw [h.expected, atOffset_add]
    · -- a segment that reaches past the end of this one starts there
      intro o' data' hheld'
      have hold : HeldAt base w st o' data' := hheld'.of_within hwithin
      have hlaminar := h.laminar _ _ _ _ hheld hold
      have hbeside := h.beside _ _ hold
      have hstart : o' ≠ o := by
        rintro rfl
        have hget' := hheld'.get?
        rw [get?_erase, if_pos h.expected.symm] at hget'
        cases hget'
      unfold Laminar at hlaminar
      omega
  case out => exact take_append_of_isPrefix_drop hpiece
  case taken => exact fun _ hlow hhigh => ⟨o, data, hheld, hlow, hhigh⟩
  case kept =>
    intro o' data' hheld' hlt
    refine ⟨?_, hheld'.low, hheld'.high⟩
    rw [get?_erase, if_neg]
    · exact hheld'.get?
    · rw [h.expected, h.inj hheld' hheld]
      rintro rfl
      have hsame := hheld'.get?.symm.trans hheld.get?
      rw [Option.some.inj hsame] at hlt
      exact Nat.lt_irrefl _ hlt
  case within => exact hwithin
  case pending => rfl
  case synSeen => rfl
  case initialized => rfl

theorem Holding.mem_before_iff {seq : BitVec 32} :
    seq ∈ st.before st.expectedSeq ↔
      ∃ o data, seq = atOffset base o ∧ HeldAt base w st o data ∧ o < d := by
  rw [before, mem_filter, mem_keys_iff, h.expected]
  constructor
  · rintro ⟨⟨data, hget⟩, hlt⟩
    obtain ⟨-, o, rfl, hheld, -⟩ := h.entries seq data hget
    exact ⟨o, data, rfl, hheld, (hheld.seqLt_iff h.window (h.ne_nil hheld)).mp hlt⟩
  · rintro ⟨o, data, rfl, hheld, hlt⟩
    exact ⟨⟨data, hheld.get?⟩, (hheld.seqLt_iff h.window (h.ne_nil hheld)).mpr hlt⟩

theorem Holding.dropStale (hstale : (st.before st.expectedSeq).isEmpty = false) :
    Advances S base w st ((st.before st.expectedSeq).foldl dropSegment st) d d [] ∧
      ((st.before st.expectedSeq).foldl dropSegment st).buffer.length < st.buffer.length := by
  obtain ⟨buffer, bytes, hfold, hget, hlt⟩ := foldl_dropSegment_before st _ hstale
  rw [hfold]
  have hwithin : ∀ seq data, buffer.get? seq = some data → st.buffer.get? seq = some data := by
    intro seq data hseq
    rw [hget] at hseq
    split_ifs at hseq
    exact hseq
  refine ⟨?_, hlt⟩
  constructor
  case le => exact le_refl d
  case holding =>
    exact h.of_within hwithin h.expected h.le h.window
      (fun o data hheld => h.beside o data (hheld.of_within hwithin))
  case out => exact append_nil _
  case taken => exact fun _ hlow hhigh => absurd hlow (Nat.not_le_of_lt hhigh)
  case kept =>
    intro o data hheld hlt'
    refine ⟨?_, hheld.low, hheld.high⟩
    rw [hget, if_neg]
    · exact hheld.get?
    · intro hmem
      obtain ⟨o', data', hseq, hheld', hlt''⟩ := h.mem_before_iff.mp hmem
      obtain rfl := (h.inj hheld hheld').mp hseq
      have hbeside := h.beside o data hheld
      omega
  case within => exact hwithin
  case pending => rfl
  case synSeen => rfl
  case initialized => rfl

end

theorem Holding.drainLoop (n : ℕ) (h : Holding S base w st d) (hn : st.buffer.length ≤ n) : ∃ d',
    Advances S base w st (drainLoop n st).1 d d' (drainLoop n st).2 ∧
      ∀ o data, HeldAt base w (TcpStream.drainLoop n st).1 o data → d' < o := by
  induction n generalizing st d with
  | zero =>
    refine ⟨d, h.advances_refl, ?_⟩
    intro o data hheld
    have hget := hheld.get?
    rw [TcpStream.drainLoop, get?_of_length_eq_zero (Nat.le_zero.mp hn)] at hget
    cases hget
  | succ n ih =>
    rw [TcpStream.drainLoop]
    cases hget : st.buffer.get? st.expectedSeq with
    | some data =>
      have hdelivered := h.deliver hget (st.bufferedBytes - data.length)
      have hlt : (st.buffer.erase st.expectedSeq).length < st.buffer.length :=
        length_filter_lt (OrderedMap.get?_eq_some_iff.mp hget) (by simp)
      obtain ⟨d', hadvances, hnext⟩ := ih hdelivered.holding (by dsimp only; omega)
      exact ⟨d', hdelivered.trans hadvances, hnext⟩
    | none =>
      by_cases hstale : (st.before st.expectedSeq).isEmpty = true
      · rw [if_pos hstale]
        refine ⟨d, h.advances_refl, ?_⟩
        intro o data hheld
        have hahead : ¬ o < d := by
          intro hlt
          have hmem := h.mem_before_iff.mpr ⟨o, data, rfl, hheld, hlt⟩
          rw [List.isEmpty_iff.mp hstale] at hmem
          exact not_mem_nil hmem
        have hne : o ≠ d := by
          rintro rfl
          have hsome := hheld.get?
          rw [← h.expected, hget] at hsome
          cases hsome
        omega
      · rw [if_neg hstale]
        obtain ⟨hdropped, hlt⟩ := h.dropStale (Bool.eq_false_iff.mpr hstale)
        obtain ⟨d', hadvances, hnext⟩ := ih hdropped.holding (by omega)
        exact ⟨d', hdropped.trans hadvances, hnext⟩

theorem Holding.drainInOrder (h : Holding S base w st d) : ∃ d',
    Advances S base w st st.drainInOrder.1 d d' st.drainInOrder.2 ∧
      ∀ o data, HeldAt base w st.drainInOrder.1 o data → d' < o := h.drainLoop _ (le_refl _)

/-! ## Recording a segment -/

theorem lead_eq (h : Holding S base d st d) (hlow : d ≤ o + maxWindow) (hhigh : o ≤ d + maxWindow) :
    st.lead (atOffset base o) = (o : ℤ) - d := by
  rw [lead, h.expected]
  unfold maxWindow at *
  exact toInt_atOffset_sub base (by omega) (by omega)

theorem HeldAt.offset_eq (h : HeldAt base d st o' data') (hpos : 0 < data'.length)
    (hlow : d ≤ o + maxWindow) (hhigh : o < d + maxWindow)
    (hseq : atOffset base o' = atOffset base o) : o' = o := by
  have hlow' := h.low
  have hhigh' := h.high
  unfold maxWindow at *
  exact (atOffset_inj_of_near base (by omega) (by omega)).mp hseq

section Buffered

variable {st' : TcpStream} (hpayload : data ≠ [])
  (hfits : st.Accommodates d o (atOffset base o) data)
  (hbuffer : st'.buffer = st.buffer.insert (atOffset base o) data)
include hpayload hfits hbuffer

omit hpayload in
theorem heldAt_buffered : HeldAt base d st' o data :=
  ⟨by rw [hbuffer, get?_insert, if_pos rfl], hfits.window.1, hfits.window.2⟩

theorem HeldAt.buffered_cases (h : HeldAt base d st' o' data') :
    (o' = o ∧ data' = data) ∨ HeldAt base d st o' data' := by
  have hsome := h.get?
  have hwindow := hfits.window
  have hpos := length_pos_of_ne_nil hpayload
  rw [hbuffer, get?_insert] at hsome
  split_ifs at hsome with hseq
  · obtain rfl := Option.some.inj hsome
    exact Or.inl ⟨h.offset_eq hpos hwindow.1 (by omega) hseq, rfl⟩
  · exact Or.inr ⟨hsome, h.low, h.high⟩

theorem HeldAt.covered_buffered (h : HeldAt base d st o' data') (hpos' : 0 < data'.length) :
    (o' = o ∧ data'.length ≤ data.length) ∨ HeldAt base d st' o' data' := by
  have hwindow := hfits.window
  have hpos := length_pos_of_ne_nil hpayload
  by_cases hseq : atOffset base o' = atOffset base o
  · have hsame := h.get?
    rw [hseq] at hsame
    exact Or.inl ⟨h.offset_eq hpos' hwindow.1 (by omega) hseq, hfits.longer data' hsame⟩
  · refine Or.inr ⟨?_, h.low, h.high⟩
    rw [hbuffer, get?_insert, if_neg hseq]
    exact h.get?

end Buffered

theorem Holding.laminar_of_accommodates (h : Holding S base d st d)
    (hfits : st.Accommodates d o (atOffset base o) data) (hheld : HeldAt base d st o' data') :
    Laminar o data.length o' data'.length := by
  have hhigh := hheld.high
  have hwindow := hfits.window
  have hlaminar := hfits.laminar _ (OrderedMap.get?_eq_some_iff.mp hheld.get?)
  rw [lead_eq h hfits.window.1 (by omega), lead_eq h hheld.low (by omega)] at hlaminar
  unfold Laminar at hlaminar ⊢
  dsimp only at hlaminar
  omega

theorem Holding.buffered (h : Holding S base d st d) (hpayload : data ≠ [])
    (hpiece : data <+: S.drop o) (hfits : st.Accommodates d o (atOffset base o) data)
    (hexpected : st'.expectedSeq = st.expectedSeq)
    (hbuffer : st'.buffer = st.buffer.insert (atOffset base o) data) :
    Holding S base d st' d ∧ HeldAt base d st' o data ∧
      ∀ i o' data', HeldAt base d st o' data' → o' ≤ i → i < o' + data'.length →
        ∃ o'' data'', HeldAt base d st' o'' data'' ∧ o'' ≤ i ∧ i < o'' + data''.length := by
  have hnew := heldAt_buffered hfits hbuffer
  refine ⟨?_, hnew, ?_⟩
  · constructor
    case expected => rw [hexpected, h.expected]
    case le => exact h.le
    case window => exact h.window
    case entries =>
      intro seq data' hseq
      have hsome := hseq
      rw [hbuffer, get?_insert] at hsome
      split_ifs at hsome with heq
      · obtain rfl := Option.some.inj hsome
        exact ⟨hpayload, o, heq, hnew, hpiece⟩
      · obtain ⟨hne, o', rfl, hheld, hpiece'⟩ := h.entries seq data' hsome
        exact ⟨hne, o', rfl, ⟨hseq, hheld.low, hheld.high⟩, hpiece'⟩
    case beside =>
      intro o' data' hheld
      rcases hheld.buffered_cases hpayload hfits hbuffer with ⟨rfl, rfl⟩ | hold
      · exact hfits.beside
      · exact h.beside o' data' hold
    case laminar =>
      intro o₁ data₁ o₂ data₂ hheld₁ hheld₂
      rcases hheld₁.buffered_cases hpayload hfits hbuffer with ⟨rfl, rfl⟩ | hold₁
      · rcases hheld₂.buffered_cases hpayload hfits hbuffer with ⟨rfl, rfl⟩ | hold₂
        · exact Laminar.refl _ _
        · exact h.laminar_of_accommodates hfits hold₂
      · rcases hheld₂.buffered_cases hpayload hfits hbuffer with ⟨rfl, rfl⟩ | hold₂
        · exact (h.laminar_of_accommodates hfits hold₁).symm
        · exact h.laminar o₁ data₁ o₂ data₂ hold₁ hold₂
  · intro i o' data' hheld hlow hhigh
    rcases hheld.covered_buffered hpayload hfits hbuffer (by omega) with ⟨rfl, hlonger⟩ | hheld'
    · exact ⟨o', data, hnew, hlow, by omega⟩
    · exact ⟨o', data', hheld', hlow, hhigh⟩

/-! ## Handing over -/

def Covers (came : ℕ → Prop) (n : ℕ) : Prop := ∀ i < n, came i

instance (came : ℕ → Prop) [DecidablePred came] (n : ℕ) : Decidable (Covers came n) :=
  inferInstanceAs (Decidable (∀ i < n, came i))

def Gapped (came : ℕ → Prop) : Prop := ∃ i j, i < j ∧ ¬ came i ∧ came j

/-- What is known of a stream when the bytes that satisfy `came` have come in and `out` has been
handed over: these are the bytes handed over and the bytes buffered. -/
structure Keeping (S : List UInt8) (base : BitVec 32) (came : ℕ → Prop) (out : List UInt8)
    (st : TcpStream) : Prop where
  start : out <+: S
  holding : Holding S base out.length st out.length
  synSeen : st.synSeen = true
  initialized : st.initialized = true
  kept : ∀ i, came i → i < out.length ∨
    ∃ o data, HeldAt base out.length st o data ∧ o ≤ i ∧ i < o + data.length
  handed : ∀ i < out.length, came i
  held : ∀ i o data, HeldAt base out.length st o data → o ≤ i → i < o + data.length → came i

variable {came : ℕ → Prop} {out : List UInt8}

theorem Holding.recenter (h : Holding S base w st d')
    (hnext : ∀ o data, HeldAt base w st o data → d' < o) :
    Holding S base d' st d' ∧ ∀ o data, HeldAt base d' st o data ↔ HeldAt base w st o data := by
  have hsame : ∀ o data, HeldAt base d' st o data ↔ HeldAt base w st o data := by
    intro o data
    constructor
    · intro hheld
      obtain ⟨hne, o', hseq, hheld', -⟩ := h.entries _ _ hheld.get?
      have hpos := length_pos_of_ne_nil hne
      have hafter := hnext o' data hheld'
      have hlow := hheld.low
      have hhigh := hheld.high
      have hlow' := hheld'.low
      have hhigh' := hheld'.high
      have hwindow := h.window
      have hoffset : o = o' := by
        unfold maxWindow at *
        exact (atOffset_inj_of_near base (by omega) (by omega)).mp hseq
      rw [hoffset]
      exact hheld'
    · intro hheld
      have hafter := hnext o data hheld
      have hhigh := hheld.high
      have hwindow := h.window
      exact ⟨hheld.get?, by omega, by omega⟩
  refine ⟨?_, hsame⟩
  constructor
  case expected => exact h.expected
  case le => exact h.le
  case window => exact ⟨le_refl _, Nat.le_add_right _ _⟩
  case entries =>
    intro seq data hget
    obtain ⟨hne, o, hseq, hheld, hpiece⟩ := h.entries seq data hget
    exact ⟨hne, o, hseq, (hsame o data).mpr hheld, hpiece⟩
  case beside => exact fun o data hheld => h.beside o data ((hsame o data).mp hheld)
  case laminar =>
    exact fun o data o' data' hheld hheld' =>
      h.laminar o data o' data' ((hsame o data).mp hheld) ((hsame o' data').mp hheld')

theorem HeldAt.congr (hbuffer : st'.buffer = st.buffer) :
    HeldAt base w st' o data ↔ HeldAt base w st o data := by
  constructor
  · exact fun h => ⟨by rw [← hbuffer]; exact h.get?, h.low, h.high⟩
  · exact fun h => ⟨by rw [hbuffer]; exact h.get?, h.low, h.high⟩

theorem Keeping.congr (h : Keeping S base came out st)
    (hexpected : st'.expectedSeq = st.expectedSeq) (hbuffer : st'.buffer = st.buffer)
    (hsyn : st'.synSeen = st.synSeen) (hinit : st'.initialized = st.initialized) :
    Keeping S base came out st' where
  start := h.start
  holding := h.holding.of_within (by rw [hbuffer]; exact fun _ _ hget => hget)
    (by rw [hexpected, h.holding.expected]) h.holding.le h.holding.window
    (fun o data hheld => h.holding.beside o data ((HeldAt.congr hbuffer).mp hheld))
  synSeen := hsyn.trans h.synSeen
  initialized := hinit.trans h.initialized
  kept := by
    intro i hi
    rcases h.kept i hi with hout | ⟨o, data, hheld, hrange⟩
    · exact Or.inl hout
    · exact Or.inr ⟨o, data, (HeldAt.congr hbuffer).mpr hheld, hrange⟩
  handed := h.handed
  held := fun i o data hheld => h.held i o data ((HeldAt.congr hbuffer).mp hheld)

theorem Keeping.drain (h : Keeping S base came out st) :
    Keeping S base came (out ++ st.drainInOrder.2) st.drainInOrder.1 ∧
      (∀ n, Covers came n → n ≤ (out ++ st.drainInOrder.2).length) ∧
      (Gapped came → st.drainInOrder.1.buffer.isEmpty = false) ∧
      st.drainInOrder.1.pendingFlush = st.pendingFlush := by
  obtain ⟨d', hadvances, hnext⟩ := h.holding.drainInOrder
  have hout : out ++ st.drainInOrder.2 = S.take d' := by
    rw [← hadvances.out, ← prefix_iff_eq_take.mp h.start]
  have hlength : (out ++ st.drainInOrder.2).length = d' := by
    rw [hout, length_take, Nat.min_eq_left hadvances.holding.le]
  have hle := hadvances.le
  obtain ⟨hholding, hsame⟩ := hadvances.holding.recenter hnext
  have hkeeping : Keeping S base came (out ++ st.drainInOrder.2) st.drainInOrder.1 := by
    constructor
    case start =>
      rw [hout]
      exact take_prefix _ _
    case holding =>
      rw [hlength]
      exact hholding
    case synSeen => exact hadvances.synSeen.trans h.synSeen
    case initialized => exact hadvances.initialized.trans h.initialized
    case kept =>
      intro i hi
      rw [hlength]
      by_cases hlt : i < d'
      · exact Or.inl hlt
      · right
        rcases h.kept i hi with hout | ⟨o, data, hheld, hlow, hhigh⟩
        · omega
        · exact ⟨o, data, (hsame o data).mpr (hadvances.kept o data hheld (by omega)), hlow, hhigh⟩
    case handed =>
      -- what is handed over now was buffered
      intro i hi
      rw [hlength] at hi
      by_cases hlt : i < out.length
      · exact h.handed i hlt
      · obtain ⟨o, data, hheld, hlow, hhigh⟩ := hadvances.taken i (by omega) hi
        exact h.held i o data hheld hlow hhigh
    case held =>
      intro i o data hheld
      rw [hlength] at hheld
      exact h.held i o data (((hsame o data).mp hheld).of_within hadvances.within)
  refine ⟨hkeeping, ?_, ?_, hadvances.pending⟩
  · intro n hcovers
    rw [hlength]
    by_contra hlt
    rcases hkeeping.kept d' (hcovers d' (by omega)) with hout | ⟨o, data, hheld, hlow, -⟩
    · omega
    · rw [hlength] at hheld
      have hafter := hnext o data ((hsame o data).mp hheld)
      omega
  · rintro ⟨i, j, hij, hmissing, hcame⟩
    rw [Bool.eq_false_iff]
    intro hempty
    rcases hkeeping.kept j hcame with hout | ⟨o, data, hheld, -⟩
    · exact hmissing (hkeeping.handed i (by omega))
    · exact OrderedMap.isEmpty_iff.mp hempty _ (OrderedMap.get?_eq_some_iff.mp hheld.get?)

/-- Handing over keeps what is known. A pending push brings out every byte up to the first one that
has not come in, and stays pending where a later one has. -/
theorem Keeping.release (h : Keeping S base came out st) (ceiling : ℕ) (p : ParsedPacket) :
    Keeping S base came (out ++ (st.release ceiling p).2.flatten) (st.release ceiling p).1 ∧
      (st.pendingFlush = true →
        ∀ n, Covers came n → n ≤ (out ++ (st.release ceiling p).2.flatten).length) ∧
      (st.pendingFlush = true → Gapped came → (st.release ceiling p).1.pendingFlush = true) := by
  obtain ⟨hdrained, hcovers, hgapped, hpending⟩ := h.drain
  rw [TcpStream.release]
  by_cases hfull : ceiling < st.bufferedBytes
  · rw [if_pos hfull, flatten_drainAsResults]
    exact ⟨hdrained, fun _ => hcovers, fun hpush _ => hpending.trans hpush⟩
  · rw [if_neg hfull]
    by_cases hpush : st.pendingFlush = true
    · obtain ⟨pendingFlush, hflush, hkeeps⟩ := flushPendingPush_eq hpush
      rw [hflush]
      dsimp only
      obtain ⟨blockedTemplate, hblocked⟩ :=
        rememberBlocked_eq { st.drainInOrder.1 with pendingFlush } p
      rw [hblocked, flatten_drainAsResults]
      refine ⟨hdrained.congr rfl rfl rfl rfl, fun _ => hcovers, ?_⟩
      intro _ hgap
      exact (hkeeps (hgapped hgap)).trans (hpending.trans hpush)
    · obtain ⟨blockedTemplate, hblocked⟩ := rememberBlocked_eq st p
      rw [flushPendingPush, if_neg hpush]
      dsimp only
      rw [hblocked, flatten_nil, append_nil]
      exact ⟨h.congr rfl rfl rfl rfl, fun hyes => absurd hyes hpush, fun hyes => absurd hyes hpush⟩

theorem takeSegment_eq_of_empty (now : Instant) {flags : TcpFlags} (seq : BitVec 32)
    {p : ParsedPacket} (hinit : st.initialized = true) (hflag : flags.syn = false)
    (hpayload : p.payload = []) :
    st.takeSegment now flags seq p =
      ({ st with
        lastSeen := now
        lastPacketAt := max st.lastPacketAt p.timestamp
        pendingFlush := flags.psh || st.pendingFlush }, true) := by
  cases hpsh : flags.psh <;>
    simp [takeSegment, anchor, hinit, hflag, hpayload, hpsh]

theorem Keeping.takeSegment (h : Keeping S base came out st) (now : Instant) {p : ParsedPacket}
    (hpiece : p.payload <+: S.drop o) (ack psh : Bool)
    (hfits : p.payload ≠ [] → st.Accommodates out.length o (atOffset base o) p.payload) : ∃ st₁,
    st.takeSegment now { ack, psh } (atOffset base o) p = (st₁, true) ∧
      Keeping S base (fun i => came i ∨ o ≤ i ∧ i < o + p.payload.length) out st₁ ∧
      st₁.pendingFlush = (psh || st.pendingFlush) := by
  by_cases hpayload : p.payload = []
  · refine ⟨_, takeSegment_eq_of_empty now _ h.initialized rfl hpayload, ?_, rfl⟩
    have hsame : (fun i => came i ∨ o ≤ i ∧ i < o + p.payload.length) = came := by
      funext i
      rw [hpayload, length_nil]
      exact propext (or_iff_left (by omega))
    rw [hsame]
    exact h.congr rfl rfl rfl rfl
  · refine ⟨_, takeSegment_eq now _ h.initialized h.synSeen rfl hpayload, ?_, rfl⟩
    generalize hst : { st with
      lastSeen := now
      lastPacketAt := max st.lastPacketAt p.timestamp
      bufferedBytes := st.bufferedBytes + p.payload.length
      buffer := st.buffer.insert (atOffset base o) p.payload
      pendingFlush := psh || st.pendingFlush } = st₁
    have hbuffer : st₁.buffer = st.buffer.insert (atOffset base o) p.payload := by rw [← hst]
    obtain ⟨hholding, hnew, hcovered⟩ := h.holding.buffered hpayload hpiece (hfits hpayload)
      (show st₁.expectedSeq = st.expectedSeq by rw [← hst]) hbuffer
    constructor
    case start => exact h.start
    case holding => exact hholding
    case synSeen =>
      rw [← hst]
      exact h.synSeen
    case initialized =>
      rw [← hst]
      exact h.initialized
    case kept =>
      rintro i (hi | hi)
      · rcases h.kept i hi with hout | ⟨o', data, hheld, hlow, hhigh⟩
        · exact Or.inl hout
        · exact Or.inr (hcovered i o' data hheld hlow hhigh)
      · exact Or.inr ⟨o, p.payload, hnew, hi⟩
    case handed => exact fun i hi => Or.inl (h.handed i hi)
    case held =>
      intro i o' data hheld hlow hhigh
      have hget := hheld.get?
      rw [hbuffer, get?_insert] at hget
      split_ifs at hget with hseq
      · right
        have hdata := Option.some.inj hget
        obtain rfl := (hholding.inj hheld hnew).mp hseq
        rw [hdata]
        exact ⟨hlow, hhigh⟩
      · exact Or.inl (h.held i o' data ⟨hget, hheld.low, hheld.high⟩ hlow hhigh)

end TcpStream

/-! ## Runs -/

namespace TcpReassembler
open TcpStream

/-- The arrival of a piece of a byte stream, `offset` bytes behind its first byte. -/
structure PieceArrival (S : List UInt8) (base : BitVec 32) (key : TcpStreamKey) where
  offset : ℕ
  psh : Bool
  now : Instant
  packet : ParsedPacket
  key_eq : packet.streamKey = key
  seq : packet.tcpSeq = some (atOffset base offset)
  payload : packet.payload <+: S.drop offset
  flags : ∃ ack, packet.tcpFlags = some { ack, psh }

structure OpensAt (base : BitVec 32) (key : TcpStreamKey) (p : ParsedPacket) : Prop where
  key_eq : p.streamKey = key
  seq : ∃ seq, p.tcpSeq = some seq ∧ seq + 1 = base
  payload : p.payload = []
  flags : ∃ flags, p.tcpFlags = some flags ∧ flags.syn = true ∧ flags.rst = false

variable {S : List UInt8} {base : BitVec 32} {key : TcpStreamKey}

def CameIn (arrivals : List (PieceArrival S base key)) (i : ℕ) : Prop :=
  ∃ a ∈ arrivals, a.offset ≤ i ∧ i < a.offset + a.packet.payload.length

instance (arrivals : List (PieceArrival S base key)) : DecidablePred (CameIn arrivals) :=
  fun _ => inferInstanceAs (Decidable (∃ a ∈ arrivals, _))

/-- A push came that the bytes before `n` had not satisfied: as long as one of them was missing, a
byte behind a gap kept the push waiting. -/
def Pushed (arrivals : List (PieceArrival S base key)) (n : ℕ) : Prop :=
  ∃ (before : List (PieceArrival S base key)) (a : PieceArrival S base key)
    (after : List (PieceArrival S base key)), arrivals = before ++ a :: after ∧ a.psh = true ∧
    ∀ mid, mid <+: after →
      Covers (CameIn (before ++ a :: mid)) n ∨ Gapped (CameIn (before ++ a :: mid))

/-- A push has been waiting behind a gap ever since it came. -/
def Waiting (arrivals : List (PieceArrival S base key)) : Prop :=
  ∃ (before : List (PieceArrival S base key)) (a : PieceArrival S base key)
    (after : List (PieceArrival S base key)), arrivals = before ++ a :: after ∧ a.psh = true ∧
    ∀ mid, mid <+: after → Gapped (CameIn (before ++ a :: mid))

variable {arrivals : List (PieceArrival S base key)} {a : PieceArrival S base key} {n : ℕ}

theorem CameIn.mono {i : ℕ} (h : CameIn arrivals i) (rest : List (PieceArrival S base key)) :
    CameIn (arrivals ++ rest) i := by
  obtain ⟨a, ha, hrange⟩ := h
  exact ⟨a, mem_append_left _ ha, hrange⟩

theorem cameIn_concat :
    CameIn (arrivals ++ [a]) =
      fun i => CameIn arrivals i ∨ a.offset ≤ i ∧ i < a.offset + a.packet.payload.length := by
  funext i
  apply propext
  constructor
  · rintro ⟨b, hb, hrange⟩
    rcases mem_append.mp hb with hb | hb
    · exact Or.inl ⟨b, hb, hrange⟩
    · rw [mem_singleton] at hb
      subst hb
      exact Or.inr hrange
  · rintro (h | hrange)
    · exact h.mono [a]
    · exact ⟨a, mem_append_right _ (mem_singleton_self a), hrange⟩

theorem pushed_of_reaches (ha : a ∈ arrivals) (hpsh : a.psh = true)
    (hreach : n ≤ a.offset + a.packet.payload.length) (hpayload : a.packet.payload ≠ []) :
    Pushed arrivals n := by
  obtain ⟨before, after, rfl⟩ := append_of_mem ha
  refine ⟨before, a, after, rfl, hpsh, ?_⟩
  intro mid _
  by_cases hcovers : Covers (CameIn (before ++ a :: mid)) n
  · exact Or.inl hcovers
  · right
    unfold Covers at hcovers
    push Not at hcovers
    obtain ⟨i, hi, hmissing⟩ := hcovers
    have hpos := length_pos_of_ne_nil hpayload
    have hlast : CameIn (before ++ a :: mid) (a.offset + a.packet.payload.length - 1) :=
      ⟨a, by simp, by omega, by omega⟩
    refine ⟨i, a.offset + a.packet.payload.length - 1, ?_, hmissing, hlast⟩
    have hne : i ≠ a.offset + a.packet.payload.length - 1 := by
      rintro rfl
      exact hmissing hlast
    omega

theorem Waiting.of_concat (h : Waiting (arrivals ++ [a])) :
    Gapped (CameIn (arrivals ++ [a])) ∧ (a.psh = true ∨ Waiting arrivals) := by
  obtain ⟨before, b, after, hsplit, hpsh, hgapped⟩ := h
  refine ⟨by rw [hsplit]; exact hgapped after (prefix_refl _), ?_⟩
  rcases concat_eq_append_cons_iff.mp hsplit with ⟨rest, rfl, hrest⟩ | ⟨-, -, rfl⟩
  · right
    refine ⟨before, b, rest, hrest, hpsh, ?_⟩
    exact fun mid hmid => hgapped mid (hmid.trans (prefix_append _ _))
  · exact Or.inl hpsh

/-- A push that waits for the bytes before `n` waited for them before the last arrival already, or
is waiting, or has just come. -/
theorem Pushed.of_concat (h : Pushed (arrivals ++ [a]) n) :
    (Covers (CameIn arrivals) n ∧ Pushed arrivals n) ∨ Waiting arrivals ∨ a.psh = true := by
  obtain ⟨before, b, after, hsplit, hpsh, hwaits⟩ := h
  rcases concat_eq_append_cons_iff.mp hsplit with ⟨rest, rfl, rfl⟩ | ⟨-, -, rfl⟩
  · have hrest : ∀ mid, mid <+: rest →
        Covers (CameIn (before ++ b :: mid)) n ∨ Gapped (CameIn (before ++ b :: mid)) :=
      fun mid hmid => hwaits mid (hmid.trans (prefix_append _ _))
    by_cases hcovers : Covers (CameIn (before ++ b :: rest)) n
    · exact Or.inl ⟨hcovers, before, b, rest, rfl, hpsh, hrest⟩
    · right
      left
      refine ⟨before, b, rest, rfl, hpsh, ?_⟩
      intro mid hmid
      rcases hrest mid hmid with hearly | hgapped
      · obtain ⟨later, rfl⟩ := hmid
        refine absurd (fun i hi => ?_) hcovers
        have hmono := (hearly i hi).mono later
        rwa [append_assoc, cons_append] at hmono
      · exact hgapped
  · exact Or.inr (Or.inr hpsh)

section Run
variable (env : ReassemblyEnv) (r : TcpReassembler) (opening : Instant × ParsedPacket)

/-- The reassembler and everything it handed over, after the opening packet and the arrivals. -/
def handedOver (arrivals : List (PieceArrival S base key)) : TcpReassembler × List UInt8 :=
  (opening :: arrivals.map (fun a => (a.now, a.packet))).foldl (deliver env) (r, [])

/-- The stream can take the piece without losing bytes, where there are any in it. -/
def Fits (before : List (PieceArrival S base key)) (a : PieceArrival S base key) : Prop :=
  a.packet.payload ≠ [] → ∀ st ∈ (handedOver env r opening before).1.streams.get? key,
    st.Accommodates (handedOver env r opening before).2.length a.offset (atOffset base a.offset)
      a.packet.payload

instance (before : List (PieceArrival S base key)) (a : PieceArrival S base key) :
    Decidable (Fits env r opening before a) := inferInstanceAs (Decidable (_ → _))

/-- The stream neither starts afresh after a silence nor skips a hole. -/
def Undisturbing (before : List (PieceArrival S base key)) (a : PieceArrival S base key) : Prop :=
  Undisturbed env a.now (handedOver env r opening before).1 a.packet

instance (before : List (PieceArrival S base key)) (a : PieceArrival S base key) :
    Decidable (Undisturbing env r opening before a) :=
  inferInstanceAs (Decidable (Undisturbed _ _ _ _))

variable {env r opening}

theorem handedOver_concat :
    handedOver env r opening (arrivals ++ [a]) =
      deliver env (handedOver env r opening arrivals) (a.now, a.packet) := by
  rw [handedOver, map_append, ← cons_append, foldl_append]
  rfl

/-- One arrival: its bytes are kept, and a push brings out all bytes up to the first one missing. -/
theorem insert_piece {r : TcpReassembler} {st : TcpStream} {out : List UInt8} {came : ℕ → Prop}
    (hheld : r.streams.get? key = some st) (h : st.Keeping S base came out)
    (hcalm : Undisturbed env a.now r a.packet)
    (hfits : a.packet.payload ≠ [] →
      st.Accommodates out.length a.offset (atOffset base a.offset) a.packet.payload) :
    let came' := fun i => came i ∨ a.offset ≤ i ∧ i < a.offset + a.packet.payload.length
    let out' := out ++ (r.insert env a.now a.packet).2.flatten
    ∃ st', (r.insert env a.now a.packet).1.streams.get? key = some st' ∧
      st'.Keeping S base came' out' ∧
      (a.psh = true ∨ st.pendingFlush = true →
        (∀ n, Covers came' n → n ≤ out'.length) ∧ (Gapped came' → st'.pendingFlush = true)) := by
  intro came' out'
  obtain ⟨ack, hflags⟩ := a.flags
  obtain ⟨st₁, htake, htaken, hpending⟩ := h.takeSegment a.now a.payload ack a.psh hfits
  obtain ⟨hsilent, hgaps⟩ := hcalm
  have hkey := a.key_eq
  rw [← hkey] at hheld
  have hinsert : r.insert env a.now a.packet = _ :=
    insert_held hflags a.seq rfl rfl hheld hsilent htake
  rw [hinsert] at hgaps
  rw [resyncStream_eq hgaps] at hinsert
  obtain ⟨hkeeping, hcovers, hgapped⟩ := htaken.release env.maxTcpBuffer a.packet
  have hout : out' = out ++ (st₁.release env.maxTcpBuffer a.packet).2.flatten := by
    rw [show out' = out ++ (r.insert env a.now a.packet).2.flatten from rfl, hinsert]
  rw [hout]
  refine ⟨_, ?_, hkeeping, ?_⟩
  · rw [hinsert, hkey]
    exact get?_put r key _
  · intro hpush
    have hflush : st₁.pendingFlush = true := by
      rw [hpending, Bool.or_eq_true]
      exact hpush
    exact ⟨hcovers hflush, hgapped hflush⟩

theorem exists_keeping (hopens : OpensAt base key opening.2)
    (hcalm : Stepwise (Undisturbing env r opening) arrivals)
    (hfits : Stepwise (Fits env r opening) arrivals) : ∃ st,
    (handedOver env r opening arrivals).1.streams.get? key = some st ∧
      st.Keeping S base (CameIn arrivals) (handedOver env r opening arrivals).2 ∧
      (Waiting arrivals → st.pendingFlush = true) ∧
      ∀ n, Covers (CameIn arrivals) n → Pushed arrivals n →
        n ≤ (handedOver env r opening arrivals).2.length := by
  induction arrivals using List.reverseRecOn with
  | nil =>
    obtain ⟨seq, hseq, hbase⟩ := hopens.seq
    obtain ⟨flags, hflags, hsyn, hrst⟩ := hopens.flags
    obtain ⟨r', st, hinsert, hexpected, hbuffer, hsynSeen, hinit⟩ :=
      insert_syn env opening.1 r hflags hseq hsyn hrst hopens.payload
    have hrun : handedOver env r opening ([] : List (PieceArrival S base key)) =
        (r'.put key st, []) := by
      rw [handedOver, map_nil, foldl_cons, foldl_nil, deliver, hinsert, hopens.key_eq]
      rfl
    have hnone : ∀ o data, ¬ HeldAt base 0 st o data := by
      intro o data hheld
      have hget := hheld.get?
      rw [hbuffer] at hget
      cases hget
    rw [hrun, get?_put]
    refine ⟨st, rfl, ⟨ nil_prefix, ?_, hsynSeen, hinit, ?_, ?_, ?_⟩, ?_, ?_⟩
    · refine ⟨?_, Nat.zero_le _, ⟨le_refl _, Nat.zero_le _⟩, ?_, ?_, ?_⟩
      · rw [hexpected, hbase, atOffset, length_nil]
        exact (BitVec.add_zero _).symm
      · intro seq data hget
        rw [hbuffer] at hget
        cases hget
      · exact fun o data hheld => absurd hheld (hnone o data)
      · exact fun o data _ _ hheld => absurd hheld (hnone o data)
    · rintro i ⟨a, ha, -⟩
      exact absurd ha not_mem_nil
    · exact fun i hi => absurd hi (Nat.not_lt_zero i)
    · exact fun i o data hheld => absurd hheld (hnone o data)
    · rintro ⟨before, a, after, hsplit, -⟩
      simp at hsplit
    · rintro n - ⟨before, a, after, hsplit, -⟩
      simp at hsplit
  | append_singleton arrivals a ih =>
    obtain ⟨hcalm, hlast⟩ := stepwise_concat.mp hcalm
    obtain ⟨hfits, hfit⟩ := stepwise_concat.mp hfits
    obtain ⟨st, hheld, hkeeping, hwaiting, hpushed⟩ := ih hcalm hfits
    obtain ⟨st', hheld', hkeeping', hflushed⟩ :=
      insert_piece hheld hkeeping hlast (fun hpayload => hfit hpayload st hheld)
    rw [handedOver_concat, cameIn_concat]
    refine ⟨st', hheld', hkeeping', ?_, ?_⟩
    · intro hwait
      obtain ⟨hgap, hpush⟩ := hwait.of_concat
      rw [cameIn_concat] at hgap
      exact (hflushed (hpush.imp id hwaiting)).2 hgap
    · intro n hcovers hpush
      rcases hpush.of_concat with ⟨hearly, hpush⟩ | hwait | hpsh
      · -- already out
        have hle := hpushed n hearly hpush
        rw [deliver, length_append]
        omega
      · exact (hflushed (Or.inr (hwaiting hwait))).1 n hcovers
      · exact (hflushed (Or.inl hpsh)).1 n hcovers

/-- In a run whose every piece fits, what is handed over is the beginning of the byte stream, and
holds every byte before `n` once these have come in and a push that waits for them has. Without a
push, the next flush would bring them out. -/
theorem pieces_delivered (env : ReassemblyEnv) (r : TcpReassembler) (S : List UInt8)
    (base : BitVec 32) (key : TcpStreamKey) (opening : Instant × ParsedPacket)
    (hopens : OpensAt base key opening.2) (arrivals : List (PieceArrival S base key))
    (hcalm : Stepwise (Undisturbing env r opening) arrivals)
    (hfits : Stepwise (Fits env r opening) arrivals) :
    (handedOver env r opening arrivals).2 <+: S ∧
      ∀ n, Covers (CameIn arrivals) n →
        (Pushed arrivals n → S.take n <+: (handedOver env r opening arrivals).2) ∧
          ∃ st, (handedOver env r opening arrivals).1.streams.get? key = some st ∧
            S.take n <+: (handedOver env r opening arrivals).2 ++ st.drainInOrder.2 := by
  obtain ⟨st, hheld, hkeeping, -, hpushed⟩ := exists_keeping hopens hcalm hfits
  obtain ⟨hdrained, hcovered, -⟩ := hkeeping.drain
  refine ⟨hkeeping.start, ?_⟩
  intro n hcovers
  refine ⟨?_, st, hheld, ?_⟩
  · intro hpush
    rw [prefix_iff_eq_take.mp hkeeping.start]
    exact take_prefix_take_left (hpushed n hcovers hpush)
  · rw [prefix_iff_eq_take.mp hdrained.start]
    exact take_prefix_take_left (hcovered n hcovers)

end Run

/-- The end of a stream comes first, with a push, and then all of it in one segment. -/
theorem pieces_delivered_nested : let opening := (0, dataPacket { syn := true } 99 [])
    let key := opening.2.streamKey
    let tail : PieceArrival [1, 2, 3, 4, 5] 100 key := ⟨2, true, 1,
      dataPacket { ack := true, psh := true } 102 [3, 4, 5], rfl, rfl, by decide, true, rfl⟩
    let whole : PieceArrival [1, 2, 3, 4, 5] 100 key := ⟨0, false, 2,
      dataPacket { ack := true } 100 [1, 2, 3, 4, 5], rfl, rfl, by decide, true, rfl⟩
    [1, 2, 3, 4, 5] <+:
      (handedOver .plain { maxEntries := 10, ttl := 30000000000 } opening [tail, whole]).2 := by
  intro opening key tail whole
  have hopens : OpensAt 100 key opening.2 := ⟨rfl, ⟨99, rfl, by decide⟩, rfl, _, rfl, rfl, rfl⟩
  have hcalm : Stepwise (Undisturbing .plain { maxEntries := 10, ttl := 30000000000 } opening)
      [tail, whole] := by decide +kernel
  have hfits : Stepwise (Fits .plain { maxEntries := 10, ttl := 30000000000 } opening)
      [tail, whole] := by decide +kernel
  have hcovers : Covers (CameIn [tail, whole]) 5 := by decide +kernel
  have hpushed : Pushed [tail, whole] 5 :=
    pushed_of_reaches mem_cons_self rfl (by decide) (by decide)
  exact ((pieces_delivered .plain _ _ 100 key opening hopens [tail, whole] hcalm hfits).2
    5 hcovers).1 hpushed

/-- A segment sent again with another boundary: the bytes behind those already handed over are
dropped with it. -/
theorem overlapping_piece_lost : let S : List UInt8 := [1, 2, 3, 4, 5, 6, 7, 8]
    let opening := (0, dataPacket { syn := true } 99 [])
    let key := opening.2.streamKey
    let original : PieceArrival S 100 key := ⟨0, true, 1,
      dataPacket { ack := true, psh := true } 100 [1, 2, 3, 4, 5], rfl, rfl, by decide, true, rfl⟩
    let resent : PieceArrival S 100 key := ⟨3, true, 2,
      dataPacket { ack := true, psh := true } 103 [4, 5, 6, 7, 8], rfl, rfl, by decide, true, rfl⟩
    let run := handedOver .plain { maxEntries := 10, ttl := 30000000000 } opening [original, resent]
    OpensAt 100 key opening.2 ∧
      Stepwise (Undisturbing .plain { maxEntries := 10, ttl := 30000000000 } opening)
        [original, resent] ∧
      Covers (CameIn [original, resent]) 8 ∧ Pushed [original, resent] 8 ∧
      run.2 = [1, 2, 3, 4, 5] ∧
      run.1.streams.values.map (fun st => (st.bufferedBytes, st.buffer.length)) = [(0, 0)] := by
  intro S opening key original resent run
  refine ⟨⟨rfl, ⟨99, rfl, by decide⟩, rfl, _, rfl, rfl, rfl⟩, by decide +kernel, by decide +kernel,
    ?_, by decide +kernel, by decide +kernel⟩
  exact pushed_of_reaches (mem_cons_of_mem _ mem_cons_self) rfl (by decide) (by decide)

end TcpReassembler

end Sipnab
