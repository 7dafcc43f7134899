import Sipnab.Lib.Cuts
import Sipnab.Lib.SerialNumber
import Sipnab.Rtp.Stream

/-!
# The loss counter

A packet carries the low 16 bits of its number, and the log of lost packets holds such bits. Behind
the counter stand the numbers between the first packet and the highest one that have not arrived.
The counter is their count as long as no packet is mistaken for another one: a repeated packet for
one that is missing a lap before, or a packet half a lap behind for one half a lap ahead.
-/

namespace Sipnab

open List

def sequenceOf (number : ℤ) : BitVec 16 := BitVec.ofInt 16 number

theorem sequenceOf_eq_iff {x y : ℤ} : sequenceOf x = sequenceOf y ↔ x % 65536 = y % 65536 :=
  ofInt_eq_ofInt_iff

theorem toNat_sequenceOf_sub (x y : ℤ) :
    ((sequenceOf x - sequenceOf y).toNat : ℤ) = (x - y) % 65536 := by
  rw [sequenceOf, sequenceOf, ofInt_sub_ofInt, BitVec.toNat_ofInt]
  have hpos := Int.emod_nonneg (x - y) (show ((2 ^ 16 : ℕ) : ℤ) ≠ 0 by decide)
  omega

theorem sequenceOf_add_one (x : ℤ) : sequenceOf x + 1 = sequenceOf (x + 1) := by
  rw [sequenceOf, sequenceOf, BitVec.ofInt_add]
  rfl

theorem sequenceOf_add_ofNat (x : ℤ) (n : ℕ) :
    sequenceOf x + BitVec.ofNat 16 n = sequenceOf (x + n) := by
  rw [sequenceOf, sequenceOf, BitVec.ofInt_add, BitVec.ofInt_natCast]

/-! ## The numbers behind the packets -/

def highest (first : ℤ) (numbers : List ℤ) : ℤ := numbers.foldl max first

/-- The numbers from the first to the highest that have not arrived. -/
def missing (first : ℤ) (numbers : List ℤ) : Finset ℤ :=
  ((Finset.range (highest first numbers - first + 1).toNat).image (fun k : ℕ => first + k)).filter
    (fun n => n ∉ first :: numbers)

variable {first : ℤ} {numbers : List ℤ} {e n : ℤ}

theorem highest_concat : highest first (numbers ++ [e]) = max (highest first numbers) e := by
  rw [highest, foldl_append]
  rfl

theorem le_highest (h : n ∈ first :: numbers) : n ≤ highest first numbers := by
  induction numbers using List.reverseRecOn with
  | nil => exact Int.le_of_eq (mem_singleton.mp h)
  | append_singleton numbers last ih =>
    rw [highest_concat]
    rcases mem_cons.mp h with rfl | h
    · exact le_max_of_le_left (ih mem_cons_self)
    · rcases mem_append.mp h with h | h
      · exact le_max_of_le_left (ih (mem_cons_of_mem _ h))
      · exact le_max_of_le_right (Int.le_of_eq (mem_singleton.mp h))

theorem mem_missing : n ∈ missing first numbers ↔
    first ≤ n ∧ n ≤ highest first numbers ∧ n ∉ first :: numbers := by
  rw [missing, Finset.mem_filter, Finset.mem_image, ← and_assoc]
  apply and_congr_left
  intro _
  constructor
  · rintro ⟨k, hk, rfl⟩
    rw [Finset.mem_range] at hk
    omega
  · rintro ⟨hlow, hhigh⟩
    refine ⟨(n - first).toNat, ?_, ?_⟩
    · rw [Finset.mem_range]
      omega
    · omega

theorem missing_nil : missing first [] = ∅ := by
  rw [Finset.eq_empty_iff_forall_notMem]
  intro n hn
  obtain ⟨hlow, hhigh, hnot⟩ := mem_missing.mp hn
  apply hnot
  rw [mem_singleton]
  exact le_antisymm hhigh hlow

theorem missing_concat_of_lt (h : highest first numbers < e) :
    missing first (numbers ++ [e]) =
      missing first numbers ∪ Finset.Ioo (highest first numbers) e := by
  have hfirst : first ≤ highest first numbers := le_highest mem_cons_self
  ext n
  rw [Finset.mem_union, Finset.mem_Ioo, mem_missing, mem_missing, highest_concat,
    max_eq_right h.le, ← cons_append, mem_append, mem_singleton]
  constructor
  · rintro ⟨hlow, hhigh, hnot⟩
    have hne : n ≠ e := fun heq => hnot (Or.inr heq)
    by_cases hle : n ≤ highest first numbers
    · exact Or.inl ⟨hlow, hle, fun hmem => hnot (Or.inl hmem)⟩
    · exact Or.inr ⟨by omega, by omega⟩
  · rintro (⟨hlow, hhigh, hnot⟩ | ⟨hlow, hhigh⟩)
    · refine ⟨hlow, by omega, ?_⟩
      rintro (hmem | rfl)
      · exact hnot hmem
      · omega
    · refine ⟨by omega, by omega, ?_⟩
      rintro (hmem | rfl)
      · have hle := le_highest hmem
        omega
      · omega

theorem missing_concat_of_le (h : e ≤ highest first numbers) :
    missing first (numbers ++ [e]) = (missing first numbers).erase e := by
  ext n
  rw [Finset.mem_erase, mem_missing, mem_missing, highest_concat, max_eq_left h,
    ← cons_append, mem_append, mem_singleton]
  tauto

theorem disjoint_missing_Ioo :
    Disjoint (missing first numbers) (Finset.Ioo (highest first numbers) e) := by
  rw [Finset.disjoint_left]
  intro n hn hn'
  have hhigh := (mem_missing.mp hn).2.1
  have hlow := (Finset.mem_Ioo.mp hn').1
  omega

theorem card_missing_concat_of_lt (h : highest first numbers < e) :
    ((missing first (numbers ++ [e])).card : ℤ) =
      (missing first numbers).card + (e - highest first numbers - 1) := by
  rw [missing_concat_of_lt h, Finset.card_union_of_disjoint disjoint_missing_Ioo, Int.card_Ioo]
  omega

theorem map_missing_concat_of_lt (h : highest first numbers < e) :
    (missing first (numbers ++ [e])).val.map sequenceOf =
      (missing first numbers).val.map sequenceOf +
        ((List.range (e - highest first numbers - 1).toNat).map
          (fun k : ℕ => sequenceOf (highest first numbers + 1) + BitVec.ofNat 16 k) :
            Multiset (BitVec 16)) := by
  rw [missing_concat_of_lt h, ← Finset.disjUnion_eq_union _ _ disjoint_missing_Ioo,
    Finset.disjUnion_val, Multiset.map_add, Int.Ioo_eq_finset_map, Finset.map_val, Multiset.map_map]
  congr 1
  rw [← Multiset.map_coe]
  apply Multiset.map_congr rfl
  intro k _
  rw [sequenceOf_add_ofNat]
  rfl

/-! ## What an update does to the loss fields -/

namespace RtpStream

structure SameLoss (s t : RtpStream) : Prop where
  lastSeq : s.lastSeq = t.lastSeq
  lostPackets : s.lostPackets = t.lostPackets
  lostSequences : s.lostSequences = t.lostSequences
  lostSeqCap : s.lostSeqCap = t.lostSeqCap

theorem SameLoss.trans {s t u : RtpStream} (h : SameLoss s t) (h' : SameLoss t u) : SameLoss s u :=
  ⟨h.lastSeq.trans h'.lastSeq, h.lostPackets.trans h'.lostPackets,
    h.lostSequences.trans h'.lostSequences, h.lostSeqCap.trans h'.lostSeqCap⟩

theorem SameLoss.noteSequence {s t : RtpStream} (h : SameLoss s t) (sequence : BitVec 16) :
    SameLoss (s.noteSequence sequence) (t.noteSequence sequence) := by
  obtain ⟨hlast, hlost, hlog, hcap⟩ := h
  unfold RtpStream.noteSequence
  dsimp only
  rw [hlast, hlost, hlog, hcap]
  split_ifs
  · exact ⟨rfl, rfl, rfl, rfl⟩
  · exact ⟨rfl, rfl, rfl, rfl⟩
  · exact ⟨rfl, rfl, rfl, rfl⟩
  · exact ⟨hlast, hlost, hlog, hcap⟩

theorem update_sameLoss (s : RtpStream) (header : RtpHeader) (timestamp : DateTime)
    (payloadLen : ℕ) :
    SameLoss (s.update header timestamp payloadLen) (s.noteSequence header.sequence) := by
  have hkeeps := update_keeps (fun s => (s.lastSeq, s.lostPackets, s.lostSequences, s.lostSeqCap))
    (fun s header => rfl) (fun s jitter prevArrival prevRtpTs lastTimestamp intervalPackets => rfl)
    (fun s timestamp => rfl) s header timestamp payloadLen
  simp only [Prod.mk.injEq] at hkeeps
  obtain ⟨hlast, hlost, hlog, hcap⟩ := hkeeps
  have hnote : SameLoss { s with
      packetCount := s.packetCount + 1
      octetCount := s.octetCount + payloadLen
      lastSeen := timestamp } s := ⟨rfl, rfl, rfl, rfl⟩
  exact SameLoss.trans ⟨hlast, hlost, hlog, hcap⟩ (hnote.noteSequence header.sequence)

theorem foldl_pushLost (cap k : ℕ) (log : List (BitVec 16)) (f : ℕ → BitVec 16)
    (hroom : log.length + k ≤ cap) :
    (List.range k).foldl (fun log offset => pushLost cap log (f offset)) log =
      log ++ (List.range k).map f := by
  induction k with
  | zero => simp
  | succ k ih =>
    rw [range_succ, foldl_append, ih (by omega), foldl_cons, foldl_nil, pushLost,
      if_neg, map_append, append_assoc]
    · rfl
    · rw [length_append, length_map, length_range]
      omega

structure Counts (s : RtpStream) (first : ℤ) (numbers : List ℤ) : Prop where
  lastSeq : s.lastSeq = sequenceOf (highest first numbers)
  lostPackets : s.lostPackets = (missing first numbers).card
  lostSequences : (s.lostSequences : Multiset (BitVec 16)) =
    (missing first numbers).val.map sequenceOf

variable {s t : RtpStream}

section

variable (h : Counts s first numbers)
include h

theorem Counts.congr (hsame : SameLoss t s) : Counts t first numbers := by
  obtain ⟨hlast, hlost, hlog, -⟩ := hsame
  exact ⟨hlast.trans h.lastSeq, hlost.trans h.lostPackets, by rw [hlog]; exact h.lostSequences⟩

theorem Counts.length : s.lostSequences.length = (missing first numbers).card := by
  rw [← Multiset.coe_card, h.lostSequences, Multiset.card_map]
  rfl

theorem Counts.mem_lostSequences :
    sequenceOf e ∈ s.lostSequences ↔ ∃ m ∈ missing first numbers, m % 65536 = e % 65536 := by
  rw [← Multiset.mem_coe, h.lostSequences, Multiset.mem_map]
  refine exists_congr (fun m => and_congr Iff.rfl sequenceOf_eq_iff)

/-! ### One packet -/

theorem Counts.note_of_lt (hlt : highest first numbers < e)
    (hnear : e - highest first numbers ≤ 32768)
    (hroom : (missing first (numbers ++ [e])).card ≤ s.lostSeqCap) :
    Counts (s.noteSequence (sequenceOf e)) first (numbers ++ [e]) := by
  have hcard := card_missing_concat_of_lt hlt
  have hhighest : highest first (numbers ++ [e]) = e := by
    rw [highest_concat, max_eq_right hlt.le]
  have hexpected : s.lastSeq + 1 = sequenceOf (highest first numbers + 1) := by
    rw [h.lastSeq, sequenceOf_add_one]
  have hgap := toNat_sequenceOf_sub e (highest first numbers + 1)
  rw [Int.emod_eq_of_lt (by omega) (by omega)] at hgap
  unfold RtpStream.noteSequence
  dsimp only
  rw [hexpected]
  split_ifs with hnext hforward hlate
  · -- the next one: nothing lies between
    rw [hnext, BitVec.sub_self, BitVec.toNat_zero] at hgap
    refine ⟨by rw [hhighest], ?_, ?_⟩
    · dsimp only
      rw [h.lostPackets]
      omega
    · dsimp only
      rw [map_missing_concat_of_lt hlt, h.lostSequences,
        show (e - highest first numbers - 1).toNat = 0 by omega]
      simp
  · refine ⟨by rw [hhighest], ?_, ?_⟩
    · dsimp only
      rw [h.lostPackets]
      omega
    · dsimp only
      have hlength := h.length
      rw [map_missing_concat_of_lt hlt, ← h.lostSequences, Nat.min_eq_left (by omega),
        foldl_pushLost _ _ _ _ (by omega),
        show (e - highest first numbers - 1).toNat =
          (sequenceOf e - sequenceOf (highest first numbers + 1)).toNat by omega]
      rfl
  · omega
  · omega

theorem Counts.note_of_le (hle : e ≤ highest first numbers)
    (hnear : highest first numbers - e < 32768) :
    (s.noteSequence (sequenceOf e)).lastSeq = s.lastSeq ∧
      (s.noteSequence (sequenceOf e)).lostSequences = s.lostSequences.erase (sequenceOf e) ∧
      (s.noteSequence (sequenceOf e)).lostPackets =
        if sequenceOf e ∈ s.lostSequences then s.lostPackets - 1 else s.lostPackets := by
  have hexpected : s.lastSeq + 1 = sequenceOf (highest first numbers + 1) := by
    rw [h.lastSeq, sequenceOf_add_one]
  have hgap := toNat_sequenceOf_sub e (highest first numbers + 1)
  have hbehind : (e - (highest first numbers + 1)) % 65536 =
      e - (highest first numbers + 1) + 65536 := by
    rw [← Int.add_emod_right, Int.emod_eq_of_lt (by omega) (by omega)]
  have hnext : sequenceOf e ≠ sequenceOf (highest first numbers + 1) := by
    intro heq
    rw [heq, BitVec.sub_self, BitVec.toNat_zero] at hgap
    omega
  unfold RtpStream.noteSequence
  rw [hexpected, if_neg hnext, if_neg (by omega)]
  split_ifs with hlate
  · exact ⟨rfl, rfl, rfl⟩
  · exact ⟨rfl, (erase_of_not_mem hlate).symm, rfl⟩

theorem Counts.note_of_half (hhalf : highest first numbers - e = 32768) :
    (s.noteSequence (sequenceOf e)).lostPackets = s.lostPackets + 32767 := by
  have hexpected : s.lastSeq + 1 = sequenceOf (highest first numbers + 1) := by
    rw [h.lastSeq, sequenceOf_add_one]
  have hgap := toNat_sequenceOf_sub e (highest first numbers + 1)
  rw [← Int.add_emod_right, Int.emod_eq_of_lt (by omega) (by omega)] at hgap
  have hnext : sequenceOf e ≠ sequenceOf (highest first numbers + 1) := by
    intro heq
    rw [heq, BitVec.sub_self, BitVec.toNat_zero] at hgap
    omega
  unfold RtpStream.noteSequence
  dsimp only
  rw [hexpected, if_neg hnext, if_pos (by omega)]
  dsimp only
  omega

theorem Counts.note_of_missing (hmissing : e ∈ missing first numbers)
    (hnear : highest first numbers - e < 32768) :
    Counts (s.noteSequence (sequenceOf e)) first (numbers ++ [e]) := by
  have hle := (mem_missing.mp hmissing).2.1
  have hlogged : sequenceOf e ∈ s.lostSequences := h.mem_lostSequences.mpr ⟨e, hmissing, rfl⟩
  obtain ⟨hlast, hlog, hlost⟩ := h.note_of_le hle hnear
  rw [if_pos hlogged] at hlost
  refine ⟨?_, ?_, ?_⟩
  · rw [hlast, h.lastSeq, highest_concat, max_eq_left hle]
  · rw [hlost, h.lostPackets, missing_concat_of_le hle, Finset.card_erase_of_mem hmissing]
  · rw [hlog, ← Multiset.coe_erase, h.lostSequences, missing_concat_of_le hle, Finset.erase_val,
      Multiset.map_erase_of_mem _ _ hmissing]

theorem Counts.note_of_not_mem (hle : e ≤ highest first numbers)
    (hnear : highest first numbers - e < 32768) (hnot : sequenceOf e ∉ s.lostSequences) :
    Counts (s.noteSequence (sequenceOf e)) first (numbers ++ [e]) := by
  have hmissing : e ∉ missing first numbers := by
    intro hmem
    exact hnot (h.mem_lostSequences.mpr ⟨e, hmem, rfl⟩)
  obtain ⟨hlast, hlog, hlost⟩ := h.note_of_le hle hnear
  rw [if_neg hnot] at hlost
  refine ⟨?_, ?_, ?_⟩
  · rw [hlast, h.lastSeq, highest_concat, max_eq_left hle]
  · rw [hlost, h.lostPackets, missing_concat_of_le hle, Finset.erase_eq_of_notMem hmissing]
  · rw [hlog, erase_of_not_mem hnot, h.lostSequences, missing_concat_of_le hle,
      Finset.erase_eq_of_notMem hmissing]

end

/-- No other number has its place in the loss count: it is not half a lap behind, and if it comes
again, none that is whole laps away is missing. -/
def TakenForItself (first : ℤ) (numbers : List ℤ) (e : ℤ) : Prop :=
  highest first numbers - e ≠ 32768 ∧
    (e ∈ first :: numbers → ∀ m ∈ missing first numbers, (e - m) % 65536 ≠ 0)

theorem Counts.note (h : Counts s first numbers) (hnear : |e - highest first numbers| ≤ 32768)
    (hroom : (missing first (numbers ++ [e])).card ≤ s.lostSeqCap)
    (hself : TakenForItself first numbers e) :
    Counts (s.noteSequence (sequenceOf e)) first (numbers ++ [e]) := by
  obtain ⟨hhalf, halias⟩ := hself
  rw [abs_le] at hnear
  by_cases hlt : highest first numbers < e
  · exact h.note_of_lt hlt (by omega) hroom
  · have hbehind : highest first numbers - e < 32768 := by omega
    by_cases hmissing : e ∈ missing first numbers
    · exact h.note_of_missing hmissing hbehind
    · refine h.note_of_not_mem (by omega) hbehind ?_
      intro hlogged
      obtain ⟨m, hm, hbits⟩ := h.mem_lostSequences.mp hlogged
      by_cases harrived : e ∈ first :: numbers
      · exact halias harrived m hm (by omega)
      · -- it precedes the first packet, and no missing number is that far ahead
        obtain ⟨hlow, hhigh, -⟩ := mem_missing.mp hm
        have hbefore : e < first := by
          by_contra hge
          exact hmissing (mem_missing.mpr ⟨by omega, by omega, harrived⟩)
        omega

theorem Counts.takenForItself (h : Counts s first numbers)
    (hnear : |e - highest first numbers| ≤ 32768)
    (hexact : (s.noteSequence (sequenceOf e)).lostPackets = (missing first (numbers ++ [e])).card) :
    TakenForItself first numbers e := by
  rw [abs_le] at hnear
  have hlost := h.lostPackets
  have hhalf : highest first numbers - e ≠ 32768 := by
    intro hhalf
    rw [h.note_of_half hhalf, missing_concat_of_le (by omega)] at hexact
    have hcard := Finset.card_erase_le (s := missing first numbers) (a := e)
    omega
  refine ⟨hhalf, ?_⟩
  intro harrived m hm hbits
  have hle := le_highest harrived
  have hmissing : e ∉ missing first numbers := fun hmem => (mem_missing.mp hmem).2.2 harrived
  have hlogged := h.mem_lostSequences.mpr ⟨m, hm, show m % 65536 = e % 65536 by omega⟩
  have hpos := Finset.card_pos.mpr ⟨m, hm⟩
  rw [(h.note_of_le hle (by omega)).2.2, if_pos hlogged, missing_concat_of_le hle,
    Finset.erase_eq_of_notMem hmissing] at hexact
  omega

end RtpStream

/-! ## Runs -/

/-- A packet that arrives, with the number whose bits it carries. -/
structure RtpArrival where
  number : ℤ
  header : RtpHeader
  timestamp : DateTime
  payloadLen : ℕ
  sequence_eq : header.sequence = sequenceOf number

namespace RtpStream

def received (settings : StreamSettings) (key : StreamKey) (p : RtpArrival)
    (ps : List RtpArrival) : RtpStream :=
  ps.foldl (fun s p => s.update p.header p.timestamp p.payloadLen)
    (new settings key p.header p.timestamp)

section Runs

variable (settings : StreamSettings) (key : StreamKey) (p : RtpArrival)

def missingAfter (ps : List RtpArrival) : Finset ℤ := missing p.number (ps.map RtpArrival.number)

def Near (before : List RtpArrival) (q : RtpArrival) : Prop :=
  |q.number - highest p.number (before.map RtpArrival.number)| ≤ 2 ^ 15

def Outstanding (before : List RtpArrival) (q : RtpArrival) : Prop :=
  (missingAfter p (before ++ [q])).card ≤ settings.lostSeqLogCap

/-- With the packet, the counter is the number of missing ones. -/
def CountsMissing (before : List RtpArrival) (q : RtpArrival) : Prop :=
  (received settings key p (before ++ [q])).lostPackets = (missingAfter p (before ++ [q])).card

def Unmistaken (before : List RtpArrival) (q : RtpArrival) : Prop :=
  TakenForItself p.number (before.map RtpArrival.number) q.number

variable {settings key p} {ps : List RtpArrival} {q : RtpArrival}

theorem received_concat : received settings key p (ps ++ [q]) =
    (received settings key p ps).update q.header q.timestamp q.payloadLen := by
  rw [received, foldl_append]
  rfl

theorem received_sameLoss : SameLoss (received settings key p (ps ++ [q]))
    ((received settings key p ps).noteSequence (sequenceOf q.number)) := by
  rw [received_concat, ← q.sequence_eq]
  exact update_sameLoss _ _ _ _

theorem received_lostSeqCap : (received settings key p ps).lostSeqCap = settings.lostSeqLogCap := by
  induction ps using List.reverseRecOn with
  | nil => rfl
  | append_singleton ps q ih =>
    rw [received_sameLoss.lostSeqCap, noteSequence]
    dsimp only
    split_ifs <;> exact ih

theorem map_number_concat : (ps ++ [q]).map RtpArrival.number =
    ps.map RtpArrival.number ++ [q.number] := by simp

theorem received_counts (hnear : Stepwise (Near p) ps) (hlog : Stepwise (Outstanding settings p) ps)
    (hself : Stepwise (Unmistaken p) ps) :
    Counts (received settings key p ps) p.number (ps.map RtpArrival.number) := by
  induction ps using List.reverseRecOn with
  | nil => exact ⟨p.sequence_eq, by rw [map_nil, missing_nil]; rfl, by rw [map_nil, missing_nil]; rfl⟩
  | append_singleton ps q ih =>
    obtain ⟨hnear, hnearq⟩ := stepwise_concat.mp hnear
    obtain ⟨hlog, hlogq⟩ := stepwise_concat.mp hlog
    obtain ⟨hself, hselfq⟩ := stepwise_concat.mp hself
    have hcap : (received settings key p ps).lostSeqCap = settings.lostSeqLogCap :=
      received_lostSeqCap
    rw [Outstanding, missingAfter, map_number_concat, ← hcap] at hlogq
    rw [map_number_concat]
    exact ((ih hnear hlog hself).note hnearq hlogq hselfq).congr received_sameLoss

theorem unmistaken_of_countsMissing (hnear : Stepwise (Near p) ps)
    (hlog : Stepwise (Outstanding settings p) ps)
    (hcounts : Stepwise (CountsMissing settings key p) ps) : Stepwise (Unmistaken p) ps := by
  induction ps using List.reverseRecOn with
  | nil => exact stepwise_nil
  | append_singleton ps q ih =>
    obtain ⟨hnear, hnearq⟩ := stepwise_concat.mp hnear
    obtain ⟨hlog, hlogq⟩ := stepwise_concat.mp hlog
    obtain ⟨hcounts, hcountsq⟩ := stepwise_concat.mp hcounts
    have hself := ih hnear hlog hcounts
    rw [CountsMissing, received_sameLoss.lostPackets, missingAfter, map_number_concat] at hcountsq
    exact stepwise_concat.mpr
      ⟨hself, (received_counts hnear hlog hself).takenForItself hnearq hcountsq⟩

/-- The counter is right after every packet exactly where no packet is mistaken for another. -/
theorem lost_packets_exact_iff (hnear : Stepwise (Near p) ps)
    (hlog : Stepwise (Outstanding settings p) ps) :
    Stepwise (CountsMissing settings key p) ps ↔ Stepwise (Unmistaken p) ps := by
  constructor
  · exact unmistaken_of_countsMissing hnear hlog
  · intro hself before q after hsplit
    subst hsplit
    rw [append_cons] at hnear hlog hself
    have hcounts : Counts (received settings key p (before ++ [q])) p.number
        ((before ++ [q]).map RtpArrival.number) :=
      received_counts hnear.of_append hlog.of_append hself.of_append
    exact hcounts.lostPackets

/-- A packet that carries the bits of its number and nothing else of interest. -/
def plainArrival (number : ℤ) : RtpArrival where
  number
  header := { payloadType := 0, sequence := sequenceOf number, timestamp := 0, ssrc := 1 }
  timestamp := 0
  payloadLen := 160
  sequence_eq := rfl

def plainKey : StreamKey := { ssrc := 1, src := (.v4 0x0A000001, 10000), dst := (.v4 0x0A000002, 10000) }

instance (before : List RtpArrival) (q : RtpArrival) : Decidable (Near p before q) :=
  inferInstanceAs (Decidable (_ ≤ _))

instance (before : List RtpArrival) (q : RtpArrival) : Decidable (Outstanding settings p before q) :=
  inferInstanceAs (Decidable (_ ≤ _))

instance (before : List RtpArrival) (q : RtpArrival) : Decidable (Unmistaken p before q) :=
  inferInstanceAs (Decidable (_ ≠ _ ∧
    (_ → ∀ m ∈ missing p.number (before.map RtpArrival.number), _ ≠ _)))

/-- Two numbers lost at a wrap, one of them late, then again. -/
theorem lost_packets_exact_at_wrap : let ps := [65537, 65535, 65535, 65538].map plainArrival
    Stepwise (Near (plainArrival 65534)) ps ∧ Stepwise (Outstanding {} (plainArrival 65534)) ps ∧
      Stepwise (CountsMissing {} plainKey (plainArrival 65534)) ps := by
  intro ps
  have hnear : Stepwise (Near (plainArrival 65534)) ps := by decide
  have hlog : Stepwise (Outstanding {} (plainArrival 65534)) ps := by decide
  exact ⟨hnear, hlog, (lost_packets_exact_iff hnear hlog).mpr (by decide)⟩

/-! ### A repeated packet takes back a loss of the lap before -/

def lap (k : ℕ) : List ℤ := (List.range k).map (fun i : ℕ => (i : ℤ) + 2)

theorem lap_succ (k : ℕ) : lap (k + 1) = lap k ++ [(k : ℤ) + 2] := by
  rw [lap, range_succ, map_append]
  rfl

theorem highest_lap (k : ℕ) : highest 0 (lap (k + 1)) = k + 2 := by
  induction k with
  | zero => rfl
  | succ k ih =>
    rw [lap_succ, highest_concat, ih]
    omega

theorem missing_lap (k : ℕ) : missing 0 (lap (k + 1)) = {1} := by
  ext n
  rw [mem_missing, highest_lap, Finset.mem_singleton, mem_cons, lap, List.mem_map]
  constructor
  · rintro ⟨hlow, hhigh, hnot⟩
    by_contra hne
    apply hnot
    by_cases hzero : n = 0
    · exact Or.inl hzero
    · refine Or.inr ⟨(n - 2).toNat, ?_, ?_⟩
      · rw [mem_range]
        omega
      · omega
  · rintro rfl
    refine ⟨by omega, by omega, ?_⟩
    rintro (hzero | ⟨i, -, hi⟩)
    · omega
    · omega

theorem map_number_plainArrival (numbers : List ℤ) :
    (numbers.map plainArrival).map RtpArrival.number = numbers := by
  rw [List.map_map]
  exact List.map_id' numbers

theorem near_lap (k : ℕ) : Stepwise (Near (plainArrival 0)) ((lap k).map plainArrival) := by
  induction k with
  | zero => exact stepwise_nil
  | succ k ih =>
    rw [lap_succ, map_append]
    refine stepwise_concat.mpr ⟨ih, ?_⟩
    rw [Near, map_number_plainArrival]
    cases k with
    | zero => decide
    | succ k =>
      have hhigh : highest (plainArrival 0).number (lap (k + 1)) = k + 2 := highest_lap k
      have hnumber : (plainArrival (((k + 1 : ℕ) : ℤ) + 2)).number = ((k + 1 : ℕ) : ℤ) + 2 := rfl
      rw [hhigh, hnumber, abs_le]
      omega

theorem outstanding_lap (k : ℕ) :
    Stepwise (Outstanding {} (plainArrival 0)) ((lap k).map plainArrival) := by
  induction k with
  | zero => exact stepwise_nil
  | succ k ih =>
    rw [lap_succ, map_append]
    refine stepwise_concat.mpr ⟨ih, ?_⟩
    have hmissing : missing (plainArrival 0).number (lap (k + 1)) = {1} := missing_lap k
    have hlap : (lap k).map plainArrival ++ [plainArrival ((k : ℤ) + 2)] =
        (lap (k + 1)).map plainArrival := by
      rw [lap_succ, map_append]
      rfl
    rw [Outstanding, missingAfter, hlap, map_number_plainArrival, hmissing, Finset.card_singleton]
    decide

/-- Number 1 is lost, a whole lap arrives, and the last packet of it comes twice. -/
theorem repeated_packet_uncounts_loss :
    let ps := (lap 65536).map plainArrival ++ [plainArrival 65537]
    Stepwise (Near (plainArrival 0)) ps ∧ Stepwise (Outstanding {} (plainArrival 0)) ps ∧
      ¬ Stepwise (CountsMissing {} plainKey (plainArrival 0)) ps := by
  intro ps
  have hhigh : highest (plainArrival 0).number (lap (65535 + 1)) = ((65535 : ℕ) : ℤ) + 2 :=
    highest_lap 65535
  have hmissing : missing (plainArrival 0).number (lap (65535 + 1)) = {1} := missing_lap 65535
  have hnumber : (plainArrival 65537).number = 65537 := rfl
  have hnear : Stepwise (Near (plainArrival 0)) ps := by
    refine stepwise_concat.mpr ⟨near_lap 65536, ?_⟩
    rw [Near, map_number_plainArrival, hhigh, hnumber]
    decide
  have hlog : Stepwise (Outstanding {} (plainArrival 0)) ps := by
    refine stepwise_concat.mpr ⟨outstanding_lap 65536, ?_⟩
    rw [Outstanding, missingAfter, map_number_concat, map_number_plainArrival,
      missing_concat_of_le (by rw [hhigh, hnumber]; decide), hmissing]
    decide
  refine ⟨hnear, hlog, ?_⟩
  intro hcounts
  have hself := (stepwise_concat.mp (unmistaken_of_countsMissing hnear hlog hcounts)).2
  rw [Unmistaken, map_number_plainArrival] at hself
  refine hself.2 ?_ 1 ?_ (by decide)
  · refine mem_cons_of_mem _ (List.mem_map.mpr ⟨65535, ?_, by decide⟩)
    rw [mem_range]
    decide
  · rw [hmissing]
    exact Finset.mem_singleton_self 1

end Runs

end RtpStream

end Sipnab
