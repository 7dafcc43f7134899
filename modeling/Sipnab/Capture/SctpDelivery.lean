import Sipnab.Capture.SctpReassembler

/-!
# Delivery of SCTP messages

Between two fragments of a message its stream is behind in the order of the streams only to streams
written in between. It makes room for another stream only when as many others are under way as may
be held.
-/

namespace Sipnab.Sctp

open SctpReassembler List

/-! ## Streams under way -/

/-- Another fragment: the streams other than one that are touched and not ended. -/
def unfinishedStep (own : SctpStreamKey) (unfinished : List SctpStreamKey) (e : Fed) :
    List SctpStreamKey :=
  if e.key = own ∨ (e.frag.begins && e.frag.ends) = true then unfinished
  else if e.frag.ends then unfinished.filter (fun k => k ≠ e.key)
  else if e.key ∈ unfinished then unfinished
  else unfinished ++ [e.key]

/-- The streams other than one that fragments touch and do not end. -/
def unfinished (own : SctpStreamKey) (span : List Fed) : List SctpStreamKey :=
  span.foldl (unfinishedStep own) []

variable {others : List SctpStreamKey} {e : Fed} {key : SctpStreamKey} {tsn : BitVec 32}
  {rest span : List Fed}

theorem mem_unfinishedStep_of_mem {own k : SctpStreamKey} (hmem : k ∈ others)
    (hne : k ≠ e.key) : k ∈ unfinishedStep own others e := by
  unfold unfinishedStep
  split_ifs
  · exact hmem
  · exact mem_filter.mpr ⟨hmem, by simpa using hne⟩
  · exact hmem
  · exact mem_append_left _ hmem

theorem mem_unfinishedStep_of_not_ends {own k : SctpStreamKey} (hends : e.frag.ends = false)
    (hmem : k ∈ others) : k ∈ unfinishedStep own others e := by
  unfold unfinishedStep
  split_ifs with hwhole hends' hmem'
  · exact hmem
  · rw [hends] at hends'
    cases hends'
  · exact hmem
  · exact mem_append_left _ hmem

theorem key_mem_unfinishedStep {own : SctpStreamKey} (hne : e.key ≠ own)
    (hends : e.frag.ends = false) : e.key ∈ unfinishedStep own others e := by
  have hopen : ¬ (e.key = own ∨ (e.frag.begins && e.frag.ends) = true) := by
    rw [hends, Bool.and_false]
    simpa using hne
  rw [unfinishedStep, if_neg hopen, hends, if_neg Bool.false_ne_true]
  split_ifs with hmem
  · exact hmem
  · exact mem_append_right _ (mem_singleton_self _)

/-! ## A stream among others -/

def Kept (r : SctpReassembler) (own : SctpStreamKey) (held : SctpPartial)
    (behind : SctpStreamKey → Prop) : Prop :=
  ∃ front back, r.streams.entries = front ++ (own, held) :: back ∧ ∀ e ∈ back, behind e.1

variable {r : SctpReassembler} {own : SctpStreamKey} {held : SctpPartial}
  {behind behind' : SctpStreamKey → Prop}

section

variable (h : Kept r own held behind)
include h

theorem Kept.mono (himp : ∀ k, behind k → behind' k) : Kept r own held behind' := by
  obtain ⟨front, back, hentries, hback⟩ := h
  exact ⟨front, back, hentries, fun e he => himp _ (hback e he)⟩

theorem Kept.get? : r.streams.get? own = some held := by
  obtain ⟨front, back, hentries, -⟩ := h
  rw [IndexMap.get?_eq_some_iff, hentries]
  exact mem_append_right _ mem_cons_self

theorem Kept.remove (hne : own ≠ key) :
    Kept (r.remove key) own held (fun k => behind k ∧ k ≠ key) := by
  obtain ⟨front, back, hentries, hback⟩ := h
  refine ⟨front.filter (fun e => e.1 ≠ key), back.filter (fun e => e.1 ≠ key), ?_, ?_⟩
  · have hown : decide ((own, held).1 ≠ key) = true := by simpa using hne
    rw [SctpReassembler.remove, IndexMap.filter]
    dsimp only
    rw [hentries, filter_append, filter_cons, if_pos hown]
  · intro e he
    rw [mem_filter] at he
    exact ⟨hback e he.1, by simpa using he.2⟩

theorem Kept.write (hne : own ≠ key) (p : SctpPartial) :
    Kept (r.write key p) own held (fun k => behind k ∧ k ≠ key ∨ k = key) := by
  obtain ⟨front, back, hentries, hback⟩ := h.remove hne
  refine ⟨front, back ++ [(key, p)], ?_, ?_⟩
  · rw [entries_write, ← cons_append, ← append_assoc, ← hentries]
    rfl
  · intro e he
    rw [mem_append, mem_singleton] at he
    obtain he | rfl := he
    · exact .inl (hback e he)
    · exact .inr rfl

end

theorem kept_write (r : SctpReassembler) (own : SctpStreamKey) (p : SctpPartial) :
    Kept (r.write own p) own p (fun _ => False) :=
  ⟨_, [], entries_write r own p, fun _ he => by cases he⟩

theorem Kept.doAdmit (h : Kept r own held behind) (hne : own ≠ key)
    (hbehind : ∀ k, behind k ∨ k = key → k ∈ others) (hfew : others.length < r.maxStreams) :
    Kept (r.doAdmit key) own held behind := by
  unfold SctpReassembler.doAdmit
  split_ifs with hfull
  · obtain ⟨front, back, hentries, hback⟩ := h
    obtain ⟨hkey, hlength⟩ := hfull
    cases front with
    | cons first front =>
      have hdrop : r.streams.entries.drop 1 = front ++ (own, held) :: back := by
        rw [hentries]
        rfl
      exact ⟨front, back, hdrop, hback⟩
    | nil =>
      exfalso
      have hnodup : (key :: back.map Prod.fst).Nodup := by
        have hkeys := r.streams.nodup
        rw [IndexMap.keys, hentries] at hkey
        rw [hentries] at hkeys
        rw [nodup_cons]
        rw [nil_append, map_cons, nodup_cons] at hkeys
        rw [nil_append, map_cons, mem_cons, not_or] at hkey
        exact ⟨hkey.2, hkeys.2⟩
      have hsubset : (key :: back.map Prod.fst) ⊆ others := by
        intro k hk
        rw [mem_cons, List.mem_map] at hk
        obtain rfl | ⟨e, he, rfl⟩ := hk
        · exact hbehind k (.inr rfl)
        · exact hbehind e.1 (.inl (hback e he))
      have hcount := (hnodup.subperm hsubset).length_le
      rw [IndexMap.length, hentries] at hlength
      simp only [nil_append, length_cons, length_map] at hcount hlength
      omega
  · exact h

theorem maxStreams_insert (r : SctpReassembler) (e : Fed) :
    (r.insert e).1.maxStreams = r.maxStreams := by
  have hadmitted : ∀ key, (r.doAdmit key).maxStreams = r.maxStreams := by
    intro key
    unfold SctpReassembler.doAdmit
    split_ifs <;> rfl
  rw [SctpReassembler.insert]
  split
  · rfl
  · split
    · split
      · rfl
      · exact hadmitted _
    · split
      · rfl
      · split_ifs <;> rfl

theorem Kept.insert (h : Kept r own held (· ∈ others)) (hne : e.key ≠ own)
    (hfew : (unfinishedStep own others e).length < r.maxStreams) :
    Kept (r.insert e).1 own held (· ∈ unfinishedStep own others e) := by
  have hremove : Kept (r.remove e.key) own held (· ∈ unfinishedStep own others e) :=
    (h.remove hne.symm).mono (fun k hk => mem_unfinishedStep_of_mem hk.1 hk.2)
  have hwrite : ∀ {r : SctpReassembler} (p : SctpPartial), Kept r own held (· ∈ others) →
      e.frag.ends = false → Kept (r.write e.key p) own held (· ∈ unfinishedStep own others e) := by
    intro r p h hends
    apply (h.write hne.symm p).mono
    rintro k (hk | rfl)
    · exact mem_unfinishedStep_of_mem hk.1 hk.2
    · exact key_mem_unfinishedStep hne hends
  unfold SctpReassembler.insert
  dsimp only
  by_cases hwhole : (e.frag.begins && e.frag.ends) = true
  · rw [if_pos hwhole, unfinishedStep, if_pos (.inr hwhole)]
    exact h
  · rw [if_neg hwhole]
    by_cases hbegins : e.frag.begins = true
    · have hends : e.frag.ends = false := by simpa [hbegins] using hwhole
      rw [if_pos hbegins]
      split_ifs
      · exact hremove
      · apply hwrite _ _ hends
        apply h.doAdmit hne.symm _ hfew
        rintro k (hk | rfl)
        · exact mem_unfinishedStep_of_not_ends hends hk
        · exact key_mem_unfinishedStep hne hends
    · rw [if_neg hbegins]
      cases hheld : r.streams.get? e.key with
      | none =>
        obtain ⟨front, back, hentries, hback⟩ := h
        refine ⟨front, back, hentries, ?_⟩
        intro entry hentry
        apply mem_unfinishedStep_of_mem (hback entry hentry)
        rintro heq
        rw [IndexMap.get?_eq_none_iff, ← heq] at hheld
        apply hheld
        rw [IndexMap.keys, hentries]
        exact List.mem_map_of_mem (mem_append_right _ (mem_cons_of_mem _ hentry))
      | some other =>
        dsimp only
        split_ifs with hdrop hends
        · exact hremove
        · exact hremove
        · exact hwrite _ h ((Bool.not_eq_true _).mp hends)

/-! ## The fragments of one stream -/

/-- What is left of a message whose next number is known. -/
inductive Remaining (key : SctpStreamKey) : BitVec 32 → List Fed → Prop
  | last {e : Fed} (hkey : e.key = key) (hbegins : e.frag.begins = false)
      (hends : e.frag.ends = true) : Remaining key e.frag.tsn [e]
  | more {e : Fed} {rest : List Fed} (hkey : e.key = key) (hbegins : e.frag.begins = false)
      (hends : e.frag.ends = false) (hrest : Remaining key (e.frag.tsn + 1) rest) :
      Remaining key e.frag.tsn (e :: rest)

theorem Remaining.length_pos (h : Remaining own tsn rest) : 0 < rest.length := by
  cases h with
  | last => exact Nat.one_pos
  | more => exact Nat.succ_pos _

theorem Begun.split {run : List Fed} (h : Begun own run tsn) (hrest : Remaining own tsn rest) :
    ∃ e tail, run ++ rest = e :: tail ∧ e.key = own ∧ e.frag.begins = true ∧
      e.frag.ends = false ∧ Remaining own (e.frag.tsn + 1) tail := by
  induction h generalizing rest with
  | @first e hkey hbegins hends => exact ⟨e, rest, rfl, hkey, hbegins, hends, hrest⟩
  | @middle run e hrun hkey hbegins hends ih =>
    rw [append_assoc]
    exact ih (.more hkey hbegins hends hrest)

def returnedTo (own : SctpStreamKey) (r : SctpReassembler) (span : List Fed) : List (Option Bytes) :=
  ((span.zip (r.outputs span)).filter (fun p => p.1.key = own)).map Prod.snd

theorem returnedTo_cons_own (h : e.key = own) :
    returnedTo own r (e :: span) = (r.insert e).2 :: returnedTo own (r.insert e).1 span := by
  simp [returnedTo, SctpReassembler.outputs, h]

theorem returnedTo_cons_other (h : e.key ≠ own) :
    returnedTo own r (e :: span) = returnedTo own (r.insert e).1 span := by
  simp [returnedTo, SctpReassembler.outputs, h]

theorem returnedTo_of_filter_nil (h : span.filter (fun e => e.key = own) = []) :
    returnedTo own r span = [] := by
  induction span generalizing r with
  | nil => rfl
  | cons e span ih =>
    rw [filter_eq_nil_iff, forall_mem_cons] at h
    have hne : e.key ≠ own := by simpa using h.1
    rw [returnedTo_cons_other hne]
    exact ih (filter_eq_nil_iff.mpr h.2)

/-- Fewer other streams than may be held are under way at every point. -/
def FewOthers (own : SctpStreamKey) (others : List SctpStreamKey) (span : List Fed)
    (maxStreams : ℕ) : Prop :=
  ∀ start, start <+: span → (start.foldl (unfinishedStep own) others).length < maxStreams

theorem FewOthers.head {maxStreams : ℕ} (h : FewOthers own others (e :: span) maxStreams) :
    (unfinishedStep own others e).length < maxStreams := h [e] ⟨span, rfl⟩

theorem FewOthers.tail {others : List SctpStreamKey} {e : Fed} {span : List Fed} {maxStreams : ℕ}
    (h : FewOthers own others (e :: span) maxStreams) :
    FewOthers own (unfinishedStep own others e) span maxStreams := by
  intro start hstart
  exact h (e :: start) ((cons_prefix_cons).mpr ⟨rfl, hstart⟩)

theorem insert_middle (hkey : e.key = own) (hheld : r.streams.get? own = some held)
    (htsn : e.frag.tsn = held.nextTsn) (hbegins : e.frag.begins = false)
    (hsize : (held.buf ++ e.frag.data).length ≤ maxSctpReassembly) :
    r.insert e = if e.frag.ends then (r.remove own, some (held.buf ++ e.frag.data))
      else (r.write own ⟨e.frag.tsn + 1, held.buf ++ e.frag.data⟩, none) := by
  rw [length_append] at hsize
  have hkeep : ¬ (e.frag.tsn ≠ held.nextTsn ∨
      maxSctpReassembly < held.buf.length + e.frag.data.length) := by
    rw [not_or, not_not]
    exact ⟨htsn, not_lt.mpr hsize⟩
  unfold SctpReassembler.insert
  dsimp only
  rw [hbegins, Bool.false_and, if_neg Bool.false_ne_true, if_neg Bool.false_ne_true, hkey, hheld]
  dsimp only
  rw [if_neg hkeep]

theorem returnedTo_remaining (h : Remaining own tsn rest)
    (hspan : span.filter (fun e => e.key = own) = rest) {buf : Bytes}
    (hkept : Kept r own ⟨tsn, buf⟩ (· ∈ others))
    (hsize : (buf ++ userData rest).length ≤ maxSctpReassembly)
    (hfew : FewOthers own others span r.maxStreams) :
    returnedTo own r span =
      List.replicate (rest.length - 1) none ++ [some (buf ++ userData rest)] := by
  induction span generalizing r tsn rest buf others with
  | nil =>
    rw [filter_nil] at hspan
    cases h with
    | last => cases hspan
    | more => cases hspan
  | cons e span ih =>
    by_cases hkey : e.key = own
    · rw [filter_cons, if_pos (by simpa using hkey)] at hspan
      have hown : unfinishedStep own others e = others := by
        rw [unfinishedStep, if_pos (.inl hkey)]
      rw [returnedTo_cons_own hkey]
      cases h with
      | last _ hbegins hends =>
        obtain ⟨rfl, hnone⟩ := List.cons.inj hspan
        have hdata : userData [e] = e.frag.data := flatMap_singleton _ _
        rw [hdata] at hsize ⊢
        rw [insert_middle hkey hkept.get? rfl hbegins hsize, hends, if_pos rfl,
          returnedTo_of_filter_nil hnone]
        rfl
      | @more _ rest _ hbegins hends hrest =>
        obtain ⟨rfl, hrest'⟩ := List.cons.inj hspan
        have hdata : userData (e :: rest) = e.frag.data ++ userData rest := flatMap_cons
        rw [hdata, ← append_assoc] at hsize ⊢
        have hfit : (buf ++ e.frag.data).length ≤ maxSctpReassembly := by
          rw [length_append] at hsize
          omega
        have hwritten : Kept (r.write own ⟨e.frag.tsn + 1, buf ++ e.frag.data⟩) own
            ⟨e.frag.tsn + 1, buf ++ e.frag.data⟩ (· ∈ others) :=
          (kept_write r own _).mono (fun _ hfalse => hfalse.elim)
        have hlength : (e :: rest).length - 1 = (rest.length - 1) + 1 := by
          have hpos := hrest.length_pos
          rw [length_cons]
          omega
        rw [insert_middle hkey hkept.get? rfl hbegins hfit, hends, if_neg Bool.false_ne_true,
          ih hrest hrest' hwritten hsize (hown ▸ hfew.tail), hlength, replicate_succ]
        rfl
    · rw [filter_cons, if_neg (by simpa using hkey)] at hspan
      rw [returnedTo_cons_other hkey]
      apply ih h hspan (hkept.insert hkey hfew.head) hsize
      rw [maxStreams_insert]
      exact hfew.tail

theorem returnedTo_message {message : List Fed} (h : IsMessage own message)
    (hspan : span.filter (fun e => e.key = own) = message)
    (hsize : (userData message).length ≤ maxSctpReassembly)
    (hfew : FewOthers own others span r.maxStreams) :
    returnedTo own r span =
      List.replicate (message.length - 1) none ++ [some (userData message)] := by
  induction span generalizing r others with
  | nil =>
    rw [filter_nil] at hspan
    cases h with
    | whole => cases hspan
    | parts => simp at hspan
  | cons e span ih =>
    by_cases hkey : e.key = own
    · rw [filter_cons, if_pos (by simpa using hkey)] at hspan
      have hown : unfinishedStep own others e = others := by
        rw [unfinishedStep, if_pos (.inl hkey)]
      rw [returnedTo_cons_own hkey]
      cases h with
      | whole _ hbegins hends =>
        obtain ⟨rfl, hnone⟩ := List.cons.inj hspan
        have hwhole : r.insert e = (r, some e.frag.data) := by
          rw [SctpReassembler.insert, if_pos (by rw [hbegins, hends]; rfl)]
        have hdata : userData [e] = e.frag.data := flatMap_singleton _ _
        rw [hwhole, returnedTo_of_filter_nil hnone, hdata]
        rfl
      | parts hrun hlast hbegins hends =>
        obtain ⟨first, tail, hsplit, -, hbegins, hends, hrest⟩ :=
          hrun.split (.last hlast hbegins hends)
        rw [hsplit] at hspan hsize ⊢
        obtain ⟨rfl, htail⟩ := List.cons.inj hspan
        have hdata : userData (e :: tail) = e.frag.data ++ userData tail := flatMap_cons
        rw [hdata] at hsize ⊢
        have hfit : ¬ maxSctpReassembly < e.frag.data.length := by
          have hfrag := e.frag.size
          unfold maxSctpReassembly
          omega
        have hfirst : r.insert e = ((r.doAdmit e.key).write e.key ⟨e.frag.tsn + 1, e.frag.data⟩,
            none) := by
          rw [SctpReassembler.insert, hends, Bool.and_false, if_neg Bool.false_ne_true,
            if_pos hbegins, if_neg hfit]
        have hwritten : Kept (r.insert e).1 own ⟨e.frag.tsn + 1, e.frag.data⟩ (· ∈ others) := by
          rw [hfirst, hkey]
          exact (kept_write _ own _).mono (fun _ hfalse => hfalse.elim)
        have hlength : (e :: tail).length - 1 = (tail.length - 1) + 1 := by
          have hpos := hrest.length_pos
          rw [length_cons]
          omega
        have hfew' : FewOthers own others span (r.insert e).1.maxStreams := by
          rw [maxStreams_insert]
          exact hown ▸ hfew.tail
        rw [returnedTo_remaining hrest htail hwritten hsize hfew', hfirst, hlength, replicate_succ]
        rfl
    · rw [filter_cons, if_neg (by simpa using hkey)] at hspan
      have hfew' : FewOthers own (unfinishedStep own others e) span (r.insert e).1.maxStreams := by
        rw [maxStreams_insert]
        exact hfew.tail
      rw [returnedTo_cons_other hkey]
      exact ih hspan hfew'

theorem sound_after {history : List Fed} (h : r.Sound history) (events : List Fed) :
    (r.after events).Sound (history ++ events) := by
  induction events generalizing r history with
  | nil =>
    rw [append_nil]
    exact h
  | cons e events ih =>
    rw [SctpReassembler.after, append_cons]
    exact ih (h.insert e).1

theorem maxStreams_after (r : SctpReassembler) (events : List Fed) :
    (r.after events).maxStreams = r.maxStreams := by
  induction events generalizing r with
  | nil => rfl
  | cons e events ih => rw [SctpReassembler.after, ih, maxStreams_insert]

/-- Behind any fragments, what is returned is a whole message of the fragments so far; and a message
whose fragments come in order is returned once, when fewer other streams than may be held are under
way meanwhile. -/
theorem reassembles (maxStreams : ℕ) (history : List Fed) :
    (∀ e message, (((withMaxStreams maxStreams).after history).insert e).2 = some message →
        Returned history e message) ∧
      ∀ own message span, IsMessage own message → (userData message).length ≤ maxSctpReassembly →
        span.filter (fun e => e.key = own) = message →
        (∀ start, start <+: span → (unfinished own start).length < max maxStreams 1) →
          returnedTo own ((withMaxStreams maxStreams).after history) span =
            List.replicate (message.length - 1) none ++ [some (userData message)] := by
  have hnew : (withMaxStreams maxStreams).Sound [] := fun _ hentry => by cases hentry
  constructor
  · exact fun e message => ((sound_after hnew history).insert e).2 message
  · intro own message span hmessage hsize hspan hfew
    have hfew' : FewOthers own [] span ((withMaxStreams maxStreams).after history).maxStreams := by
      rw [maxStreams_after]
      exact hfew
    exact returnedTo_message hmessage hspan hsize hfew'

def sampleFragment (tsn : BitVec 32) (sid : BitVec 16) (begins ends : Bool) (b : UInt8) : Fed :=
  ⟨(.v4 0x0a000001, 5060), (.v4 0x0a000002, 5060),
    ⟨5060, 5060, tsn, sid, 7, begins, ends, [b], by simp⟩⟩

theorem reassembles_around_other :
    returnedTo (sampleFragment 0 1 true false 97).key ((withMaxStreams 2).after [])
        [sampleFragment 0xFFFFFFFF 1 true false 97, sampleFragment 4 2 true false 120,
          sampleFragment 0 1 false true 98] = [none, some [97, 98]] := by
  have hfirst : Begun (sampleFragment 0 1 true false 97).key
      [sampleFragment 0xFFFFFFFF 1 true false 97] (sampleFragment 0 1 false true 98).frag.tsn :=
    .first rfl rfl rfl
  apply (reassembles 2 []).2 _ _ _ (.parts hfirst rfl rfl rfl) (by decide) (by decide)
  intro start hstart
  rw [← mem_inits] at hstart
  simp only [List.inits, map_cons, map_nil, mem_cons, not_mem_nil, or_false] at hstart
  obtain rfl | rfl | rfl | rfl := hstart <;> decide

end Sipnab.Sctp
