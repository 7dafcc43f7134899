import Sipnab.Lib.IndexMap
import Sipnab.Rtp.Stream

/-!
# Reassembly of SCTP messages

A message comes in one DATA chunk or in several: a beginning fragment, middle ones and an ending
one, with consecutive transmission sequence numbers. The streams under way are held in the order
they were last written, and the oldest makes room for a new one.

What is returned is a whole message, and a message whose fragments come in order is returned unless
too many other streams are under way.
-/

namespace Sipnab.Sctp

open List

abbrev Bytes := List UInt8

/-- A DATA chunk with user data in it. Its length is given in 16 bits, its headers among them. -/
structure SctpFragment where
  srcPort : ℕ
  dstPort : ℕ
  tsn : BitVec 32
  sid : BitVec 16
  ssn : BitVec 16
  begins : Bool
  ends : Bool
  data : Bytes
  size : data.length + 16 < 2 ^ 16
  deriving DecidableEq

def maxSctpReassembly : ℕ := 65536

structure SctpStreamKey where
  src : SocketAddr
  dst : SocketAddr
  sid : BitVec 16
  ssn : BitVec 16
  deriving DecidableEq

structure SctpPartial where
  nextTsn : BitVec 32
  buf : Bytes
  deriving DecidableEq

structure Fed where
  src : SocketAddr
  dst : SocketAddr
  frag : SctpFragment
  deriving DecidableEq

def Fed.key (e : Fed) : SctpStreamKey := ⟨e.src, e.dst, e.frag.sid, e.frag.ssn⟩

structure SctpReassembler where
  streams : IndexMap SctpStreamKey SctpPartial
  maxStreams : ℕ
  deriving DecidableEq

namespace SctpReassembler

def withMaxStreams (maxStreams : ℕ) : SctpReassembler := ⟨.empty, max maxStreams 1⟩

variable (r : SctpReassembler)

def write (key : SctpStreamKey) (partial' : SctpPartial) : SctpReassembler :=
  { r with streams := (r.streams.filter (fun e => e.1 ≠ key)).insert key partial' }

def remove (key : SctpStreamKey) : SctpReassembler :=
  { r with streams := r.streams.filter (fun e => e.1 ≠ key) }

def doAdmit (key : SctpStreamKey) : SctpReassembler :=
  if key ∉ r.streams.keys ∧ r.maxStreams ≤ r.streams.length then
    { r with streams := r.streams.dropFirst 1 }
  else r

def insert (e : Fed) : SctpReassembler × Option Bytes :=
  let frag := e.frag
  if frag.begins && frag.ends then (r, some frag.data)
  else if frag.begins then
    if maxSctpReassembly < frag.data.length then (r.remove e.key, none)
    else ((r.doAdmit e.key).write e.key ⟨frag.tsn + 1, frag.data⟩, none)
  else
    match r.streams.get? e.key with
    | none => (r, none)
    | some held =>
      if frag.tsn ≠ held.nextTsn ∨ maxSctpReassembly < held.buf.length + frag.data.length then
        (r.remove e.key, none)
      else if frag.ends then (r.remove e.key, some (held.buf ++ frag.data))
      else (r.write e.key ⟨frag.tsn + 1, held.buf ++ frag.data⟩, none)

def after (r : SctpReassembler) : List Fed → SctpReassembler
  | [] => r
  | e :: events => after (r.insert e).1 events

def outputs (r : SctpReassembler) : List Fed → List (Option Bytes)
  | [] => []
  | e :: events => (r.insert e).2 :: outputs (r.insert e).1 events

end SctpReassembler

/-! ## Messages -/

def userData (run : List Fed) : Bytes := run.flatMap (fun e => e.frag.data)

/-- A beginning fragment of a stream and middle ones, with consecutive numbers; the next number. -/
inductive Begun (key : SctpStreamKey) : List Fed → BitVec 32 → Prop
  | first {e : Fed} (hkey : e.key = key) (hbegins : e.frag.begins = true)
      (hends : e.frag.ends = false) : Begun key [e] (e.frag.tsn + 1)
  | middle {run : List Fed} {e : Fed} (hrun : Begun key run e.frag.tsn) (hkey : e.key = key)
      (hbegins : e.frag.begins = false) (hends : e.frag.ends = false) :
      Begun key (run ++ [e]) (e.frag.tsn + 1)

inductive IsMessage (key : SctpStreamKey) : List Fed → Prop
  | whole {e : Fed} (hkey : e.key = key) (hbegins : e.frag.begins = true)
      (hends : e.frag.ends = true) : IsMessage key [e]
  | parts {run : List Fed} {e : Fed} (hrun : Begun key run e.frag.tsn) (hkey : e.key = key)
      (hbegins : e.frag.begins = false) (hends : e.frag.ends = true) : IsMessage key (run ++ [e])

/-! ## What is returned -/

namespace SctpReassembler

variable {r : SctpReassembler} {history : List Fed}

/-- Every stream held is the beginning of a message in the history. -/
def Sound (r : SctpReassembler) (history : List Fed) : Prop :=
  ∀ entry ∈ r.streams.entries, ∃ run, Begun entry.1 run entry.2.nextTsn ∧ run.Sublist history ∧
    userData run = entry.2.buf ∧ entry.2.buf.length ≤ maxSctpReassembly

theorem Sound.subset {r' : SctpReassembler} (h : r.Sound history)
    (hsubset : ∀ entry ∈ r'.streams.entries, entry ∈ r.streams.entries) : r'.Sound history :=
  fun entry hmem => h entry (hsubset entry hmem)

theorem Sound.more (h : r.Sound history) (e : Fed) : r.Sound (history ++ [e]) := by
  intro entry hmem
  obtain ⟨run, hbegun, hsub, hdata, hsize⟩ := h entry hmem
  exact ⟨run, hbegun, hsub.trans (sublist_append_left _ _), hdata, hsize⟩

theorem Sound.remove (h : r.Sound history) (key : SctpStreamKey) : (r.remove key).Sound history :=
  h.subset (fun _ hmem => (mem_filter.mp hmem).1)

theorem Sound.doAdmit (h : r.Sound history) (key : SctpStreamKey) : (r.doAdmit key).Sound history := by
  unfold SctpReassembler.doAdmit
  split_ifs
  · exact h.subset (fun _ hmem => mem_of_mem_drop hmem)
  · exact h

theorem entries_write (r : SctpReassembler) (key : SctpStreamKey) (p : SctpPartial) :
    (r.write key p).streams.entries =
      r.streams.entries.filter (fun e => e.1 ≠ key) ++ [(key, p)] := by
  have hnot : key ∉ (r.streams.filter (fun e => e.1 ≠ key)).keys := by
    rw [IndexMap.keys, IndexMap.filter, List.mem_map]
    rintro ⟨entry, hentry, rfl⟩
    simpa using (mem_filter.mp hentry).2
  rw [SctpReassembler.write, IndexMap.insert, IndexMap.entries_alter_of_not_mem hnot]
  rfl

theorem Sound.write (h : r.Sound history) {key : SctpStreamKey} {p : SctpPartial} {run : List Fed}
    (hbegun : Begun key run p.nextTsn) (hsub : run.Sublist history) (hdata : userData run = p.buf)
    (hsize : p.buf.length ≤ maxSctpReassembly) : (r.write key p).Sound history := by
  intro entry hmem
  rw [entries_write, mem_append, mem_singleton] at hmem
  obtain hmem | rfl := hmem
  · exact h entry (mem_filter.mp hmem).1
  · exact ⟨run, hbegun, hsub, hdata, hsize⟩

def Returned (history : List Fed) (e : Fed) (message : Bytes) : Prop :=
  ∃ run, IsMessage e.key (run ++ [e]) ∧ (run ++ [e]).Sublist (history ++ [e]) ∧
    userData (run ++ [e]) = message ∧ message.length ≤ maxSctpReassembly

theorem Sound.insert (h : r.Sound history) (e : Fed) :
    (r.insert e).1.Sound (history ++ [e]) ∧
      ∀ message, (r.insert e).2 = some message → Returned history e message := by
  have hmore := h.more e
  have hlast : [e].Sublist (history ++ [e]) := sublist_append_right _ _
  have hdata : userData [e] = e.frag.data := flatMap_singleton _ _
  unfold SctpReassembler.insert
  dsimp only
  by_cases hwhole : (e.frag.begins && e.frag.ends) = true
  · rw [if_pos hwhole]
    rw [Bool.and_eq_true] at hwhole
    refine ⟨hmore, ?_⟩
    rintro message ⟨⟩
    have hsize := e.frag.size
    exact ⟨[], .whole rfl hwhole.1 hwhole.2, hlast, hdata, by unfold maxSctpReassembly; omega⟩
  · rw [if_neg hwhole]
    by_cases hbegins : e.frag.begins = true
    · rw [if_pos hbegins]
      have hends : e.frag.ends = false := by simpa [hbegins] using hwhole
      split_ifs with hsize
      · exact ⟨hmore.remove _, fun _ hnone => by cases hnone⟩
      · refine ⟨(hmore.doAdmit _).write (.first rfl hbegins hends) hlast hdata (not_lt.mp hsize), ?_⟩
        exact fun _ hnone => by cases hnone
    · rw [if_neg hbegins]
      rw [Bool.not_eq_true] at hbegins
      cases hheld : r.streams.get? e.key with
      | none => exact ⟨hmore, fun _ hnone => by cases hnone⟩
      | some held =>
        dsimp only
        obtain ⟨run, hbegun, hsub, hbuf, -⟩ := h _ (IndexMap.get?_eq_some_iff.mp hheld)
        have hsub' : (run ++ [e]).Sublist (history ++ [e]) := hsub.append (List.Sublist.refl _)
        have hbuf' : userData (run ++ [e]) = held.buf ++ e.frag.data := by
          rw [userData, flatMap_append, ← hbuf, ← hdata]
          rfl
        by_cases hdrop : e.frag.tsn ≠ held.nextTsn ∨
            maxSctpReassembly < held.buf.length + e.frag.data.length
        · rw [if_pos hdrop]
          exact ⟨hmore.remove _, fun _ hnone => by cases hnone⟩
        · rw [if_neg hdrop]
          rw [not_or, not_not, not_lt] at hdrop
          obtain ⟨htsn, hsize⟩ := hdrop
          rw [← length_append] at hsize
          rw [← htsn] at hbegun
          cases hends : e.frag.ends with
          | true =>
            rw [if_pos rfl]
            refine ⟨hmore.remove _, ?_⟩
            rintro message ⟨⟩
            exact ⟨run, .parts hbegun rfl hbegins hends, hsub', hbuf', hsize⟩
          | false =>
            rw [if_neg Bool.false_ne_true]
            refine ⟨hmore.write (.middle hbegun rfl hbegins hends) hsub' hbuf' hsize, ?_⟩
            exact fun _ hnone => by cases hnone

end SctpReassembler

end Sipnab.Sctp
