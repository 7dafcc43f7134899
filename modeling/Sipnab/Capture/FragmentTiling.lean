import Sipnab.Capture.FragmentReassembler
import Sipnab.Lib.Cuts

/-!
# What fragments a datagram is put together of

Whatever fragments are held, a datagram that is handed over is their data, end to end from byte
zero. The fragments of one datagram, in any order and with copies among them, are handed over when
the last one missing comes in, and not before.
-/

namespace Sipnab

open List Option

/-- The fragments lie end to end from byte zero: each starts where those before it end. -/
def EndToEnd (tiles : List Fragment) : Prop :=
  ∀ i f, tiles[i]? = some f → f.offset = cutOffset (tiles.map Fragment.data) i

namespace FragmentEntry
variable {fs : List Fragment} {cursor stop : ℕ} {e : FragmentEntry}

theorem endOf_eq_some_iff :
    endOf cursor fs = some stop ↔
      stop = cursor + (fs.map Fragment.data).flatten.length ∧
        ∀ i f, fs[i]? = some f → f.offset = cursor + cutOffset (fs.map Fragment.data) i := by
  induction fs generalizing cursor with
  | nil =>
    rw [endOf, Option.some.injEq]
    constructor
    · rintro rfl
      refine ⟨rfl, ?_⟩
      intro i f hf
      simp at hf
    · rintro ⟨rfl, -⟩
      rfl
  | cons g fs ih =>
    have hstep : ∀ i, cutOffset ((g :: fs).map Fragment.data) (i + 1) =
        g.data.length + cutOffset (fs.map Fragment.data) i := by
      intro i
      rw [map_cons, cutOffset, take_succ_cons, flatten_cons, length_append, cutOffset]
    have hlength : ((g :: fs).map Fragment.data).flatten.length =
        g.data.length + (fs.map Fragment.data).flatten.length := by
      rw [map_cons, flatten_cons, length_append]
    rw [endOf, hlength]
    split_ifs with hoffset
    · refine iff_of_false (fun h => by cases h) ?_
      rintro ⟨-, hall⟩
      exact hoffset (hall 0 g rfl)
    · rw [ih]
      constructor
      · rintro ⟨rfl, hall⟩
        refine ⟨by omega, ?_⟩
        intro i f hf
        cases i with
        | zero =>
          rw [← some.inj hf]
          exact not_not.mp hoffset
        | succ i =>
          rw [hstep, hall i f hf]
          omega
      · rintro ⟨rfl, hall⟩
        refine ⟨by omega, ?_⟩
        intro i f hf
        have hnext := hall (i + 1) f hf
        rw [hstep] at hnext
        omega

theorem foldl_copyInto {buf : List UInt8} (start : List UInt8)
    (hend : endOf start.length fs = some stop) (hstart : buf.take start.length = start)
    (hlength : buf.length = stop) :
    fs.foldl copyInto buf = start ++ (fs.map Fragment.data).flatten := by
  induction fs generalizing buf start with
  | nil =>
    rw [endOf] at hend
    rw [foldl_nil, map_nil, flatten_nil, append_nil, ← hstart, take_of_length_le]
    rw [hlength, some.inj hend]
  | cons g fs ih =>
    have hstop := (endOf_eq_some_iff.mp hend).1
    rw [endOf] at hend
    split_ifs at hend with hoffset
    have hoff := not_not.mp hoffset
    rw [map_cons, flatten_cons, length_append] at hstop
    have hcopy : copyInto buf g = (start ++ g.data) ++ buf.drop (start.length + g.data.length) := by
      rw [copyInto, hoff, hstart]
    rw [foldl_cons, map_cons, flatten_cons, ← append_assoc]
    apply ih
    · rw [length_append]
      exact hend
    · rw [hcopy, take_left]
    · rw [hcopy, length_append, length_append, length_drop]
      omega

theorem assemble_eq_some_iff {totalLen : ℕ} {datagram : List UInt8} :
    e.assemble totalLen = some datagram ↔
      EndToEnd e.sorted ∧ datagram = (e.sorted.map Fragment.data).flatten ∧
        datagram.length = totalLen := by
  rw [assemble]
  cases hend : endOf 0 e.sorted with
  | none =>
    refine iff_of_false (fun h => by cases h) ?_
    rintro ⟨htiles, rfl, rfl⟩
    have hsome : endOf 0 e.sorted = some (0 + (e.sorted.map Fragment.data).flatten.length) :=
      endOf_eq_some_iff.mpr ⟨rfl, fun i f hf => by rw [Nat.zero_add]; exact htiles i f hf⟩
    rw [hend] at hsome
    cases hsome
  | some cursor =>
    obtain ⟨hcursor, htiles⟩ := endOf_eq_some_iff.mp hend
    rw [Nat.zero_add] at hcursor
    have hzero : EndToEnd e.sorted := by
      intro i f hf
      have hoffset := htiles i f hf
      rwa [Nat.zero_add] at hoffset
    dsimp only
    split_ifs with htotal
    · refine iff_of_false (fun h => by cases h) ?_
      rintro ⟨-, rfl, hlength⟩
      exact htotal (hcursor.trans hlength)
    · have hcopied : e.sorted.foldl copyInto (List.replicate totalLen 0) =
          (e.sorted.map Fragment.data).flatten := by
        have hlength : (List.replicate totalLen (0 : UInt8)).length = cursor := by
          rw [length_replicate, not_not.mp htotal]
        have hcopy := foldl_copyInto [] hend take_zero hlength
        rwa [nil_append] at hcopy
      rw [hcopied, Option.some.injEq]
      constructor
      · rintro rfl
        exact ⟨hzero, rfl, by rw [← hcursor, not_not.mp htotal]⟩
      · rintro ⟨-, rfl, -⟩
        rfl

theorem sorted_perm (e : FragmentEntry) : e.sorted.Perm e.fragments := perm_insertionSort _ _

end FragmentEntry

/-! ## Any fragments -/

namespace FragmentReassembler
open FragmentEntry
variable {env : FragmentEnv} {now : Instant} {r : FragmentReassembler} {p : FragmentPacket}
  {key : FragmentKey}

theorem get?_put (r : FragmentReassembler) (key key' : FragmentKey) (e : FragmentEntry) :
    (r.put key e).entries.get? key' = if key' = key then some e else r.entries.get? key' := by
  rw [put, IndexMap.insert, IndexMap.get?_alter]

theorem get?_remove (r : FragmentReassembler) (key key' : FragmentKey) :
    (r.remove key).entries.get? key' = if key' = key then none else r.entries.get? key' := by
  rw [remove, IndexMap.get?_filter_key r.entries (fun k => decide (k ≠ key))]
  by_cases h : key' = key
  · rw [if_pos h, if_neg (by simpa using h)]
  · rw [if_neg h, if_pos (by simpa using h)]

theorem get?_foldl_remove {α : Type*} (f : α → FragmentKey) (xs : List α)
    (h : r.entries.get? key = none) :
    (xs.foldl (fun r x => r.remove (f x)) r).entries.get? key = none := by
  induction xs generalizing r with
  | nil => exact h
  | cons x xs ih =>
    apply ih
    rw [get?_remove, h, ite_self]

theorem get?_makeRoom_self (env : FragmentEnv) (r : FragmentReassembler) (key : FragmentKey) :
    (r.makeRoom env key).entries.get? key = r.entries.get? key := by
  rw [makeRoom]
  split_ifs with hfull
  · have hnone := isNone_iff_eq_none.mp hfull.1
    rw [evictOldest, get?_foldl_remove _ _ hnone, hnone]
  · rfl

def entryOf (now : Instant) (r : FragmentReassembler) (key : FragmentKey) : FragmentEntry :=
  (r.entries.get? key).getD { created := now }

def recorded (now : Instant) (r : FragmentReassembler) (key : FragmentKey) (f : Fragment) :
    FragmentEntry :=
  { r.entryOf now key with
    fragments := (r.entryOf now key).fragments ++ [f]
    totalLen := if f.ends then some (f.offset + f.data.length) else (r.entryOf now key).totalLen }

theorem insert_of_new (env : FragmentEnv) (hkey : p.key = some key)
    (hnew : (r.entryOf now key).overlap p.fragment = .none) :
    let entry := r.recorded now key p.fragment
    let datagram := (entry.totalLen.filter (fun n => n ≤ maxReassembledSize)).bind entry.assemble
    (r.insert env now p).2 = datagram ∧
      (r.insert env now p).1.entries.get? key =
        (if datagram.isSome ∨ entry.totalLen.any (fun n => maxReassembledSize < n) = true then none
          else some entry) := by
  intro entry datagram
  have hentry : ((r.makeRoom env key).entries.get? key).getD { created := now } =
      r.entryOf now key := by
    rw [get?_makeRoom_self, entryOf]
  have hstore : (r.makeRoom env key).storeFragment now key p.fragment =
      ((r.makeRoom env key).put key entry, entry.totalLen) := by
    simp only [storeFragment, hentry, hnew]
    rfl
  simp only [insert, hkey, hstore]
  cases hlen : entry.totalLen with
  | none =>
    have hnone : datagram = none := by
      rw [show datagram = (entry.totalLen.filter _).bind _ from rfl, hlen]
      rfl
    rw [hnone]
    exact ⟨rfl, by rw [get?_put, if_pos rfl]; rfl⟩
  | some n =>
    dsimp only
    rw [completeDatagram, get?_put, if_pos rfl, bind_some]
    by_cases hbig : maxReassembledSize < n
    · have hnone : datagram = none := by
        rw [show datagram = (entry.totalLen.filter _).bind _ from rfl, hlen, filter_some,
          if_neg (by simpa using hbig)]
        rfl
      rw [if_pos hbig, hnone]
      refine ⟨rfl, ?_⟩
      rw [get?_remove, if_pos rfl, if_pos (Or.inr (by simpa using hbig))]
    · have hdatagram : datagram = entry.assemble n := by
        rw [show datagram = (entry.totalLen.filter _).bind _ from rfl, hlen, filter_some,
          if_pos (by simpa using hbig)]
        rfl
      rw [if_neg hbig, hdatagram]
      cases entry.assemble n with
      | none =>
        refine ⟨rfl, ?_⟩
        rw [get?_put, if_pos rfl, if_neg]
        simpa using hbig
      | some assembled =>
        refine ⟨rfl, ?_⟩
        rw [get?_remove, if_pos rfl, if_pos (Or.inl isSome_some)]

theorem insert_of_overlap (env : FragmentEnv) (hkey : p.key = some key)
    (hold : (r.entryOf now key).overlap p.fragment ≠ .none) :
    (r.insert env now p).2 = none ∧
      ((r.entryOf now key).overlap p.fragment = .duplicate →
        (r.insert env now p).1.entries.get? key = some (r.entryOf now key)) := by
  have hentry : ((r.makeRoom env key).entries.get? key).getD { created := now } =
      r.entryOf now key := by
    rw [get?_makeRoom_self, entryOf]
  cases hoverlap : (r.entryOf now key).overlap p.fragment with
  | none => exact absurd hoverlap hold
  | duplicate =>
    simp only [insert, hkey, storeFragment, hentry, hoverlap]
    exact ⟨trivial, fun _ => by rw [get?_put, if_pos rfl]⟩
  | conflict =>
    simp only [insert, hkey, storeFragment, hentry, hoverlap]
    exact ⟨trivial, fun h => by cases h⟩

def held (r : FragmentReassembler) (key : FragmentKey) : List Fragment :=
  (r.entries.get? key).elim [] FragmentEntry.fragments

theorem fragments_entryOf (now : Instant) (r : FragmentReassembler) (key : FragmentKey) :
    (r.entryOf now key).fragments = r.held key := by
  rw [entryOf, held]
  cases r.entries.get? key <;> rfl

/-- Whatever is held, a datagram that comes out is its fragments and the one that came in last, end
to end. -/
theorem tiles_of_insert {datagram : List UInt8}
    (h : (r.insert env now p).2 = some datagram) :
    ∃ key tiles, p.key = some key ∧ tiles.Perm (r.held key ++ [p.fragment]) ∧ EndToEnd tiles ∧
      datagram = (tiles.map Fragment.data).flatten := by
  cases hkey : p.key with
  | none =>
    rw [insert, hkey] at h
    cases h
  | some key =>
    by_cases hnew : (r.entryOf now key).overlap p.fragment = .none
    · rw [(insert_of_new env hkey hnew).1] at h
      obtain ⟨n, -, hassemble⟩ := bind_eq_some_iff.mp h
      obtain ⟨htiles, hdata, -⟩ := assemble_eq_some_iff.mp hassemble
      refine ⟨key, _, rfl, ?_, htiles, hdata⟩
      rw [← fragments_entryOf now r key]
      exact sorted_perm _
    · rw [(insert_of_overlap env hkey hnew).1] at h
      cases h

end FragmentReassembler

/-! ## The fragments of one datagram -/

/-- A datagram's payload cut into fragments, no longer than IP allows. -/
structure CutDatagram where
  pieces : List (List UInt8)
  nonempty : ∀ piece ∈ pieces, piece ≠ []
  short : pieces.flatten.length ≤ maxReassembledSize

namespace CutDatagram
variable {c : CutDatagram} {i j : ℕ}

def payload (c : CutDatagram) : List UInt8 := c.pieces.flatten

def fragment (c : CutDatagram) (i : ℕ) : Fragment where
  offset := cutOffset c.pieces i
  data := c.pieces[i]?.getD []
  ends := decide (i + 1 = c.pieces.length)

theorem length_fragment (hi : i < c.pieces.length) :
    (c.fragment i).offset + (c.fragment i).data.length = cutOffset c.pieces (i + 1) := by
  have hpiece : c.pieces[i]? = some c.pieces[i] := List.getElem?_eq_getElem hi
  rw [cutOffset_succ hpiece, fragment, hpiece, getD_some]

theorem fragment_inj (hi : i < c.pieces.length) (hj : j < c.pieces.length) :
    c.fragment i = c.fragment j ↔ i = j := by
  constructor
  · intro h
    exact (cutOffset_inj c.nonempty hi.le hj.le).mp (congrArg Fragment.offset h)
  · rintro rfl
    rfl

theorem eq_of_overlap (hi : i < c.pieces.length) (hj : j < c.pieces.length)
    (h : (c.fragment i).offset < (c.fragment j).offset + (c.fragment j).data.length)
    (h' : (c.fragment j).offset < (c.fragment i).offset + (c.fragment i).data.length) : i = j := by
  rw [length_fragment hj] at h
  rw [length_fragment hi] at h'
  have hlow := (cutOffset_lt_iff c.nonempty (Nat.succ_le_of_lt hj)).mp h
  have hhigh := (cutOffset_lt_iff c.nonempty (Nat.succ_le_of_lt hi)).mp h'
  omega

/-- What is held when the fragments in `arrived` have come in. -/
structure Holds (c : CutDatagram) (arrived : Finset ℕ) (e : FragmentEntry) : Prop where
  lt : ∀ i ∈ arrived, i < c.pieces.length
  perm : e.fragments.Perm (arrived.toList.map c.fragment)
  totalLen : e.totalLen = if c.pieces.length - 1 ∈ arrived then some c.payload.length else none

variable {arrived : Finset ℕ} {e : FragmentEntry}

theorem Holds.mem_iff (h : Holds c arrived e) {f : Fragment} :
    f ∈ e.fragments ↔ ∃ i ∈ arrived, c.fragment i = f := by
  rw [h.perm.mem_iff, List.mem_map]
  exact exists_congr (fun i => and_congr_left (fun _ => Finset.mem_toList))

theorem Holds.overlap (h : Holds c arrived e) (hi : i < c.pieces.length) :
    e.overlap (c.fragment i) =
      if i ∈ arrived then FragmentOverlap.duplicate else FragmentOverlap.none := by
  rw [FragmentEntry.overlap]
  cases hfind : e.fragments.find? (fun g =>
      (c.fragment i).offset < g.offset + g.data.length &&
        g.offset < (c.fragment i).offset + (c.fragment i).data.length) with
  | none =>
    rw [if_neg]
    intro hmem
    have hself := List.find?_eq_none.mp hfind (c.fragment i) (h.mem_iff.mpr ⟨i, hmem, rfl⟩)
    have hlt := cutOffset_lt c.nonempty (Nat.lt_succ_self i) (Nat.succ_le_of_lt hi)
    rw [length_fragment hi] at hself
    simp only [Bool.and_self, decide_eq_true_eq] at hself
    exact hself hlt
  | some g =>
    obtain ⟨j, hj, rfl⟩ := h.mem_iff.mp (mem_of_find?_eq_some hfind)
    have hshared := List.find?_some hfind
    rw [Bool.and_eq_true, decide_eq_true_eq, decide_eq_true_eq] at hshared
    obtain rfl := eq_of_overlap hi (h.lt j hj) hshared.1 hshared.2
    rw [if_pos hj]
    dsimp only
    rw [if_pos rfl]

theorem Holds.record (h : Holds c arrived e) (hi : i < c.pieces.length) (hnew : i ∉ arrived)
    {e' : FragmentEntry} (hfragments : e'.fragments = e.fragments ++ [c.fragment i])
    (htotal : e'.totalLen = if (c.fragment i).ends then
      some ((c.fragment i).offset + (c.fragment i).data.length) else e.totalLen) :
    Holds c (insert i arrived) e' := by
  constructor
  case lt =>
    intro j hj
    rcases Finset.mem_insert.mp hj with rfl | hj
    · exact hi
    · exact h.lt j hj
  case perm =>
    rw [hfragments]
    refine (perm_append_singleton _ _).trans ?_
    refine ((h.perm.cons (c.fragment i))).trans ?_
    exact (((Finset.toList_insert hnew).map c.fragment).symm)
  case totalLen =>
    rw [htotal, length_fragment hi]
    by_cases hlast : i + 1 = c.pieces.length
    · have hmem : c.pieces.length - 1 ∈ insert i arrived := by
        rw [← hlast, Nat.add_sub_cancel]
        exact Finset.mem_insert_self i arrived
      rw [if_pos hmem, if_pos (by simpa [fragment] using hlast), hlast, cutOffset,
        take_length, payload]
    · have hne : c.pieces.length - 1 ≠ i := by omega
      rw [if_neg (by simpa [fragment] using hlast), h.totalLen]
      simp only [Finset.mem_insert, hne, false_or]

theorem Holds.sorted_of_complete (h : Holds c (Finset.range c.pieces.length) e) :
    e.sorted = (List.range c.pieces.length).map c.fragment := by
  have hsorted : e.sorted.Pairwise (fun f g => f.offset ≤ g.offset) := by
    have htotal : Std.Total (fun f g : Fragment => f.offset ≤ g.offset) :=
      ⟨fun f g => Nat.le_total f.offset g.offset⟩
    have htrans : IsTrans Fragment (fun f g => f.offset ≤ g.offset) := ⟨fun _ _ _ => Nat.le_trans⟩
    exact pairwise_insertionSort _ _
  have hcanonical : ((List.range c.pieces.length).map c.fragment).Pairwise
      (fun f g => f.offset ≤ g.offset) := by
    rw [pairwise_map]
    exact pairwise_lt_range.imp (fun hij => cutOffset_mono c.pieces hij.le)
  have hperm : e.sorted.Perm ((List.range c.pieces.length).map c.fragment) := by
    refine (FragmentEntry.sorted_perm e).trans (h.perm.trans ?_)
    refine List.Perm.map c.fragment ?_
    exact (perm_ext_iff_of_nodup (Finset.nodup_toList _) nodup_range).mpr
      (fun i => by rw [Finset.mem_toList, Finset.mem_range, mem_range])
  refine hperm.eq_of_pairwise ?_ hsorted hcanonical
  intro f g hf hg hfg hgf
  obtain ⟨i, hi, rfl⟩ := List.mem_map.mp (hperm.mem_iff.mp hf)
  obtain ⟨j, hj, rfl⟩ := List.mem_map.mp hg
  rw [mem_range] at hi hj
  rw [fragment_inj hi hj, ← cutOffset_inj c.nonempty hi.le hj.le]
  exact Nat.le_antisymm hfg hgf

theorem map_data_fragment (c : CutDatagram) :
    ((List.range c.pieces.length).map c.fragment).map Fragment.data = c.pieces := by
  apply ext_getElem?
  intro i
  rw [List.map_map, List.getElem?_map]
  by_cases hi : i < c.pieces.length
  · rw [List.getElem?_range hi, map_some, List.getElem?_eq_getElem hi]
    rw [Function.comp, fragment, List.getElem?_eq_getElem hi, getD_some]
  · rw [List.getElem?_eq_none (by rw [length_range]; omega), List.getElem?_eq_none (by omega)]
    rfl

theorem Holds.assemble_of_complete (h : Holds c (Finset.range c.pieces.length) e) :
    e.assemble c.payload.length = some c.payload := by
  rw [FragmentEntry.assemble_eq_some_iff, h.sorted_of_complete, map_data_fragment]
  refine ⟨?_, rfl, rfl⟩
  intro i f hf
  rw [map_data_fragment]
  rw [List.getElem?_map] at hf
  obtain ⟨j, hj, rfl⟩ := map_eq_some_iff.mp hf
  obtain ⟨hlt, hij⟩ := List.getElem?_eq_some_iff.mp hj
  rw [getElem_range] at hij
  rw [← hij, fragment]

theorem Holds.assemble_of_missing (h : Holds c arrived e) (hi : i < c.pieces.length)
    (hmissing : i ∉ arrived) : e.assemble c.payload.length = none := by
  cases hassemble : e.assemble c.payload.length with
  | none => rfl
  | some datagram =>
    obtain ⟨htiles, hdata, hlength⟩ := FragmentEntry.assemble_eq_some_iff.mp hassemble
    have hstart := cutOffset_lt c.nonempty (Nat.lt_add_one i) (Nat.succ_le_of_lt hi)
    have hend : cutOffset c.pieces (i + 1) ≤ c.payload.length := cutOffset_le c.pieces (i + 1)
    have hwithin : cutOffset c.pieces i < (e.sorted.map Fragment.data).flatten.length := by
      rw [← hdata, hlength]
      omega
    obtain ⟨k, hk, hlow, hhigh⟩ := exists_cut_of_lt hwithin
    obtain ⟨f, hf⟩ : ∃ f, e.sorted[k]? = some f := ⟨_, List.getElem?_eq_getElem (by simpa using hk)⟩
    have hmem : f ∈ e.fragments := (FragmentEntry.sorted_perm e).mem_iff.mp (mem_of_getElem? hf)
    obtain ⟨j, hj, rfl⟩ := h.mem_iff.mp hmem
    have hoffset := htiles k _ hf
    have hstop : cutOffset (e.sorted.map Fragment.data) (k + 1) =
        (c.fragment j).offset + (c.fragment j).data.length := by
      rw [cutOffset_succ (by rw [List.getElem?_map, hf]; rfl), hoffset]
    rw [← hoffset] at hlow
    rw [hstop, length_fragment (h.lt j hj)] at hhigh
    have hle := hlow
    rw [fragment] at hle
    have hji := (cutOffset_lt_iff c.nonempty (Nat.succ_le_of_lt (h.lt j hj))).mp hhigh
    have hij : j ≤ i := by
      by_contra hlt
      have hcontra := cutOffset_lt c.nonempty (Nat.lt_of_not_le hlt) (h.lt j hj).le
      dsimp only at hle
      omega
    obtain rfl : i = j := by omega
    exact absurd hj hmissing

theorem length_payload_le (c : CutDatagram) : c.payload.length ≤ maxReassembledSize := c.short

theorem Holds.any_totalLen (h : Holds c arrived e) :
    e.totalLen.any (fun n => maxReassembledSize < n) = false := by
  rw [h.totalLen]
  split_ifs
  · simpa using c.length_payload_le
  · rfl

theorem Holds.datagram_of_complete (h : Holds c (Finset.range c.pieces.length) e)
    (hpos : 0 < c.pieces.length) :
    (e.totalLen.filter (fun n => n ≤ maxReassembledSize)).bind e.assemble = some c.payload := by
  have hlast : c.pieces.length - 1 ∈ Finset.range c.pieces.length := by
    rw [Finset.mem_range]
    omega
  rw [h.totalLen, if_pos hlast, filter_some, if_pos (decide_eq_true c.length_payload_le), bind_some]
  exact h.assemble_of_complete

theorem Holds.datagram_of_incomplete (h : Holds c arrived e)
    (hpart : arrived ≠ Finset.range c.pieces.length) :
    (e.totalLen.filter (fun n => n ≤ maxReassembledSize)).bind e.assemble = none := by
  obtain ⟨j, hj, hgap⟩ : ∃ j < c.pieces.length, j ∉ arrived := by
    by_contra hnone
    push Not at hnone
    apply hpart
    apply Finset.Subset.antisymm
    · exact fun j hj => Finset.mem_range.mpr (h.lt j hj)
    · exact fun j hj => hnone j (Finset.mem_range.mp hj)
  rw [h.totalLen]
  split_ifs
  · rw [filter_some, if_pos (decide_eq_true c.length_payload_le), bind_some]
    exact h.assemble_of_missing hj hgap
  · rfl

end CutDatagram

/-! ## Runs -/

namespace FragmentReassembler
open CutDatagram
variable {env : FragmentEnv} {now : Instant} {r : FragmentReassembler} {p : FragmentPacket}
  {key : FragmentKey} {c : CutDatagram}

structure Carries (c : CutDatagram) (key : FragmentKey) (i : ℕ) (p : FragmentPacket) : Prop where
  key_eq : p.key = some key
  lt : i < c.pieces.length
  fragment : p.fragment = c.fragment i

def run (env : FragmentEnv) (r : FragmentReassembler) (packets : List (Instant × FragmentPacket)) :
    FragmentReassembler :=
  packets.foldl (fun r e => (r.insert env e.1 e.2).1) r

def BelowCap (r : FragmentReassembler) (p : FragmentPacket) : Prop :=
  ∀ key ∈ p.key, (r.entries.get? key).isSome = true ∨ r.entries.length < r.maxEntries

instance (r : FragmentReassembler) (p : FragmentPacket) : Decidable (BelowCap r p) :=
  inferInstanceAs (Decidable (∀ key ∈ p.key, _))

def Complete (c : CutDatagram) (key : FragmentKey) (packets : List (Instant × FragmentPacket)) :
    Prop :=
  ∀ i < c.pieces.length, ∃ e ∈ packets, Carries c key i e.2

theorem makeRoom_of_belowCap (h : BelowCap r p) (hkey : p.key = some key) :
    r.makeRoom env key = r := by
  rw [makeRoom, if_neg]
  rintro ⟨hnone, hfull⟩
  rcases h key hkey with hsome | hroom
  · rw [isNone_iff_eq_none.mp hnone] at hsome
    cases hsome
  · omega

theorem insert_other (hcap : BelowCap r p) (hkey : p.key ≠ some key) :
    (r.insert env now p).1.entries.get? key = r.entries.get? key := by
  cases hother : p.key with
  | none => simp only [insert, hother]
  | some other =>
    have hne : key ≠ other := by
      rintro rfl
      exact hkey hother
    simp only [insert, hother, makeRoom_of_belowCap hcap hother, storeFragment]
    cases (((r.entries.get? other).getD { created := now }).overlap p.fragment) with
    | duplicate => exact (get?_put _ _ _ _).trans (if_neg hne)
    | conflict => exact (get?_remove _ _ _).trans (if_neg hne)
    | none =>
      dsimp only
      generalize (if p.fragment.ends = true then
        some (p.fragment.offset + p.fragment.data.length)
        else ((r.entries.get? other).getD { created := now }).totalLen) = len
      cases len with
      | none => exact (get?_put _ _ _ _).trans (if_neg hne)
      | some totalLen =>
        dsimp only
        rw [completeDatagram]
        split_ifs
        · rw [get?_remove, if_neg hne, get?_put, if_neg hne]
        · split
          · rw [get?_put, if_neg hne]
          · rw [get?_remove, if_neg hne, get?_put, if_neg hne]

/-- What is held of the datagram as long as a fragment is missing. -/
structure Collecting (c : CutDatagram) (key : FragmentKey)
    (packets : List (Instant × FragmentPacket)) (r : FragmentReassembler) (arrived : Finset ℕ) :
    Prop where
  arrived_iff : ∀ i, i ∈ arrived ↔ ∃ e ∈ packets, Carries c key i e.2
  holds : ∀ now, Holds c arrived (r.entryOf now key)

variable {packets : List (Instant × FragmentPacket)} {arrived : Finset ℕ}

theorem complete_iff (harrived : ∀ i, i ∈ arrived ↔ ∃ e ∈ packets, Carries c key i e.2) :
    Complete c key packets ↔ arrived = Finset.range c.pieces.length := by
  constructor
  · intro hcomplete
    apply Finset.ext
    intro i
    rw [Finset.mem_range]
    constructor
    · intro hi
      obtain ⟨e, -, hcarries⟩ := (harrived i).mp hi
      exact hcarries.lt
    · intro hi
      exact (harrived i).mpr (hcomplete i hi)
  · rintro hall i hi
    rw [← Finset.mem_range, ← hall] at hi
    exact (harrived i).mp hi

theorem carries_inj {i j : ℕ} (h : Carries c key i p) (h' : Carries c key j p) : i = j :=
  (fragment_inj h.lt h'.lt).mp (h.fragment.symm.trans h'.fragment)

section

variable (h : Collecting c key packets r arrived)
include h

theorem Collecting.arrived_concat {i : ℕ} (hcarries : Carries c key i p) (now : Instant) (j : ℕ) :
    j ∈ Insert.insert i arrived ↔ ∃ e ∈ packets ++ [(now, p)], Carries c key j e.2 := by
  rw [Finset.mem_insert, h.arrived_iff]
  constructor
  · rintro (rfl | ⟨e, he, hj⟩)
    · exact ⟨(now, p), mem_append_right _ (mem_singleton_self _), hcarries⟩
    · exact ⟨e, mem_append_left _ he, hj⟩
  · rintro ⟨e, he, hj⟩
    rcases mem_append.mp he with he | he
    · exact Or.inr ⟨e, he, hj⟩
    · rw [mem_singleton.mp he] at hj
      exact Or.inl (carries_inj hj hcarries)

theorem Collecting.duplicate {i : ℕ} (hcarries : Carries c key i p) (hold : i ∈ arrived)
    (env : FragmentEnv) (now : Instant) :
    (r.insert env now p).2 = none ∧
      Collecting c key (packets ++ [(now, p)]) (r.insert env now p).1 arrived := by
  have hoverlap := (h.holds now).overlap hcarries.lt
  rw [← hcarries.fragment, if_pos hold] at hoverlap
  obtain ⟨hnone, hsame⟩ := insert_of_overlap env hcarries.key_eq
    (by rw [hoverlap]; exact fun h => by cases h)
  refine ⟨hnone, ?_, ?_⟩
  · intro j
    rw [← h.arrived_concat hcarries now j, Finset.insert_eq_of_mem hold]
  · intro now'
    rw [entryOf, hsame hoverlap, getD_some]
    exact h.holds now

theorem Collecting.record {i : ℕ} (hcarries : Carries c key i p) (hnew : i ∉ arrived)
    (env : FragmentEnv) (now : Instant) :
    (Insert.insert i arrived = Finset.range c.pieces.length →
        (r.insert env now p).2 = some c.payload) ∧
      (Insert.insert i arrived ≠ Finset.range c.pieces.length → (r.insert env now p).2 = none ∧
        Collecting c key (packets ++ [(now, p)]) (r.insert env now p).1
          (Insert.insert i arrived)) := by
  have hoverlap := (h.holds now).overlap hcarries.lt
  rw [← hcarries.fragment, if_neg hnew] at hoverlap
  obtain ⟨hout, hentry⟩ := insert_of_new env hcarries.key_eq hoverlap
  have hrecorded : Holds c (Insert.insert i arrived) (r.recorded now key p.fragment) := by
    rw [hcarries.fragment]
    exact (h.holds now).record hcarries.lt hnew rfl rfl
  constructor
  · intro hall
    rw [hall] at hrecorded
    have hpos := hcarries.lt
    rw [hout]
    exact hrecorded.datagram_of_complete (by omega)
  · intro hpart
    have hnothing := hrecorded.datagram_of_incomplete hpart
    refine ⟨hout.trans hnothing, h.arrived_concat hcarries now, ?_⟩
    intro now'
    rw [entryOf, hentry, hnothing, if_neg, getD_some]
    · exact hrecorded
    · rw [hrecorded.any_totalLen]
      simp

/-- The next fragment of the datagram: the payload comes out if it was the last one missing, and
nothing otherwise. -/
theorem Collecting.step {i : ℕ} (hcarries : Carries c key i p) (hmissing : ¬ Complete c key packets)
    (env : FragmentEnv) (now : Instant) :
    (Complete c key (packets ++ [(now, p)]) → (r.insert env now p).2 = some c.payload) ∧
      (¬ Complete c key (packets ++ [(now, p)]) → (r.insert env now p).2 = none ∧
        ∃ arrived', Collecting c key (packets ++ [(now, p)]) (r.insert env now p).1 arrived') := by
  have hcomplete := complete_iff (h.arrived_concat hcarries now)
  by_cases hold : i ∈ arrived
  · obtain ⟨hnone, hcollecting⟩ := h.duplicate hcarries hold env now
    rw [Finset.insert_eq_of_mem hold, ← complete_iff h.arrived_iff] at hcomplete
    exact ⟨fun hall => absurd (hcomplete.mp hall) hmissing, fun _ => ⟨hnone, arrived, hcollecting⟩⟩
  · obtain ⟨hall, hpart⟩ := h.record hcarries hold env now
    refine ⟨fun hc => hall (hcomplete.mp hc), ?_⟩
    intro hc
    obtain ⟨hnone, hcollecting⟩ := hpart (fun heq => hc (hcomplete.mpr heq))
    exact ⟨hnone, Insert.insert i arrived, hcollecting⟩

theorem Collecting.other (hcap : BelowCap r p) (hkey : p.key ≠ some key) (env : FragmentEnv)
    (now : Instant) : Collecting c key (packets ++ [(now, p)]) (r.insert env now p).1 arrived := by
  refine ⟨?_, ?_⟩
  · intro i
    rw [h.arrived_iff]
    constructor
    · rintro ⟨e, he, hi⟩
      exact ⟨e, mem_append_left _ he, hi⟩
    · rintro ⟨e, he, hi⟩
      rcases mem_append.mp he with he | he
      · exact ⟨e, he, hi⟩
      · rw [mem_singleton.mp he] at hi
        exact absurd hi.key_eq hkey
  · intro now'
    rw [entryOf, insert_other hcap hkey]
    exact h.holds now'

end

theorem collecting_nil (c : CutDatagram) (hfresh : r.entries.get? key = none) :
    Collecting c key [] r ∅ := by
  refine ⟨?_, ?_⟩
  · intro i
    refine iff_of_false (Finset.notMem_empty i) ?_
    rintro ⟨e, he, -⟩
    exact absurd he not_mem_nil
  · intro now
    rw [entryOf, hfresh]
    refine ⟨fun i hi => absurd hi (Finset.notMem_empty i), ?_, ?_⟩
    · rw [Finset.toList_empty]
      exact List.Perm.refl _
    · rw [if_neg (Finset.notMem_empty _)]
      rfl

theorem exists_collecting (env : FragmentEnv) (hfresh : r.entries.get? key = none)
    (hcap : Stepwise (fun before e => BelowCap (run env r before) e.2) packets)
    (hcarry : ∀ e ∈ packets, e.2.key = some key → ∃ i, Carries c key i e.2)
    (hmissing : ¬ Complete c key packets) :
    ∃ arrived, Collecting c key packets (run env r packets) arrived := by
  induction packets using List.reverseRecOn with
  | nil => exact ⟨∅, collecting_nil c hfresh⟩
  | append_singleton packets e ih =>
    obtain ⟨hbefore, hlast⟩ := stepwise_concat.mp hcap
    have hearlier : ¬ Complete c key packets := by
      intro hcomplete
      apply hmissing
      intro i hi
      obtain ⟨e', he', hcarries⟩ := hcomplete i hi
      exact ⟨e', mem_append_left _ he', hcarries⟩
    obtain ⟨arrived, hcollecting⟩ :=
      ih hbefore (fun e' he' => hcarry e' (mem_append_left _ he')) hearlier
    have hrun : run env r (packets ++ [e]) = ((run env r packets).insert env e.1 e.2).1 := by
      rw [run, foldl_append]
      rfl
    rw [hrun]
    by_cases hkey : e.2.key = some key
    · obtain ⟨i, hcarries⟩ := hcarry e (mem_append_right _ (mem_singleton_self e)) hkey
      exact ((hcollecting.step hcarries hearlier env e.1).2 hmissing).2
    · exact ⟨arrived, hcollecting.other hlast hkey env e.1⟩

/-- The fragments of a datagram, in any order, with copies among them and with packets of other
datagrams between, yield its payload when the last one missing comes in, and nothing before. And
whatever fragments are held, a datagram that comes out is theirs, end to end. -/
theorem fragments_reassembled (env : FragmentEnv) (c : CutDatagram) (key : FragmentKey)
    (r : FragmentReassembler) (hfresh : r.entries.get? key = none)
    (packets : List (Instant × FragmentPacket))
    (hcap : Stepwise (fun before e => BelowCap (run env r before) e.2) packets)
    (hcarry : ∀ e ∈ packets, e.2.key = some key → ∃ i, Carries c key i e.2) :
    (∀ before e after, packets = before ++ e :: after → e.2.key = some key →
      ¬ Complete c key before →
        (Complete c key (before ++ [e]) →
          ((run env r before).insert env e.1 e.2).2 = some c.payload) ∧
        (¬ Complete c key (before ++ [e]) → ((run env r before).insert env e.1 e.2).2 = none)) ∧
      ∀ (r : FragmentReassembler) now p datagram, (r.insert env now p).2 = some datagram →
        ∃ key tiles, p.key = some key ∧ tiles.Perm (r.held key ++ [p.fragment]) ∧ EndToEnd tiles ∧
          datagram = (tiles.map Fragment.data).flatten := by
  refine ⟨?_, fun r now p datagram h => tiles_of_insert h⟩
  intro before e after hsplit hkey hmissing
  obtain ⟨arrived, hcollecting⟩ := exists_collecting env hfresh (hsplit ▸ hcap).of_append
    (fun e' he' => hcarry e' (by rw [hsplit]; exact mem_append_left _ he')) hmissing
  obtain ⟨i, hcarries⟩ := hcarry e (by rw [hsplit]; exact mem_append_right _ mem_cons_self) hkey
  obtain ⟨hlast, hearlier⟩ := hcollecting.step hcarries hmissing env e.1
  exact ⟨hlast, fun h => (hearlier h).1⟩

def tenBytes : CutDatagram where
  pieces := [[1, 2, 3, 4, 5, 6, 7, 8], [9, 10]]
  nonempty := by decide
  short := by decide

def fragmentPacket (offset : ℕ) (moreFragments : Bool) (payload : List UInt8) :
    FragmentPacket where
  timestamp := 0
  srcAddr := .v4 0x0A000001
  dstAddr := .v4 0x0A000002
  srcPort := 0
  dstPort := 0
  payload
  tcpSeq := none
  tcpFlags := none
  ipId := some 7
  fragmentOffset := some offset
  moreFragments
  ipProtocol := 17

/-- The last fragment comes first and twice, and the payload comes out with the other one. -/
theorem fragments_reassembled_ten_bytes : let last := fragmentPacket 1 false [9, 10]
    let first := fragmentPacket 0 true [1, 2, 3, 4, 5, 6, 7, 8]
    let before := [(0, last), (1, last)]
    ((run .plain { maxEntries := 4, ttl := 30000000000 } before).insert .plain 2 first).2 =
      some [1, 2, 3, 4, 5, 6, 7, 8, 9, 10] := by
  intro last first before
  have hlast : Carries tenBytes ⟨.v4 0x0A000001, .v4 0x0A000002, 7, 17⟩ 1 last :=
    ⟨rfl, by decide, by decide⟩
  have hfirst : Carries tenBytes ⟨.v4 0x0A000001, .v4 0x0A000002, 7, 17⟩ 0 first :=
    ⟨rfl, by decide, by decide⟩
  have hcarry : ∀ e ∈ before ++ [(2, first)], e.2.key =
      some ⟨.v4 0x0A000001, .v4 0x0A000002, 7, 17⟩ →
        ∃ i, Carries tenBytes ⟨.v4 0x0A000001, .v4 0x0A000002, 7, 17⟩ i e.2 := by
    intro e he _
    rcases mem_cons.mp he with rfl | he
    · exact ⟨1, hlast⟩
    · rcases mem_cons.mp he with rfl | he
      · exact ⟨1, hlast⟩
      · rw [mem_singleton.mp he]
        exact ⟨0, hfirst⟩
  have hmissing : ¬ Complete tenBytes ⟨.v4 0x0A000001, .v4 0x0A000002, 7, 17⟩ before := by
    intro hcomplete
    obtain ⟨e, he, hcarries⟩ := hcomplete 0 (by decide)
    have hsame : e.2 = last := by
      rcases mem_cons.mp he with rfl | he
      · rfl
      · rw [mem_singleton.mp he]
    rw [hsame] at hcarries
    exact absurd (carries_inj hcarries hlast) (by decide)
  have hcomplete :
      Complete tenBytes ⟨.v4 0x0A000001, .v4 0x0A000002, 7, 17⟩ (before ++ [(2, first)]) := by
    intro i hi
    have hcases : i = 0 ∨ i = 1 := by
      have htwo : tenBytes.pieces.length = 2 := rfl
      omega
    rcases hcases with rfl | rfl
    · exact ⟨(2, first), by simp, hfirst⟩
    · exact ⟨(0, last), by simp [before], hlast⟩
  exact ((fragments_reassembled .plain tenBytes ⟨.v4 0x0A000001, .v4 0x0A000002, 7, 17⟩
    { maxEntries := 4, ttl := 30000000000 } rfl (before ++ [(2, first)]) (by decide +kernel)
    hcarry).1 before (2, first) [] rfl rfl hmissing).1 hcomplete

end FragmentReassembler

end Sipnab
