import Sipnab.Lib.Runs
import Sipnab.Lib.Utf8

/-!
# Key log files that are rotated

A producer appends lines to a file, renames it away and makes a new one under the same path. The
source holds the file open that it last read, knows how far, and is polled between these steps. A
poll that finds another file under the path goes over to it, and does not read on in the one it
held.
-/

namespace Sipnab.Keylog

open Utf8 List Option

/-! ## The disk and the producer -/

abbrev Line := List UInt8

def contentOf (lines : List Line) : List UInt8 := lines.flatMap (fun line => line ++ [10])

/-- The files by their identity, each with its lines. The producer writes to the last one, which the
path names unless it was renamed away. -/
structure Disk where
  files : List (List Line)
  linked : Bool

def Disk.pathId (d : Disk) : Option ℕ :=
  if d.linked && !d.files.isEmpty then some (d.files.length - 1) else none

/-! ## The source -/

inductive ResetCause
  | replaced
  | truncated
  deriving DecidableEq

structure PollOutcome where
  lines : List Char := []
  reset : Option ResetCause := none
  deriving DecidableEq

structure KeylogSource where
  handle : Option ℕ
  id : Option ℕ
  consumed : ℕ
  unfinished : List Char
  deriving DecidableEq

def KeylogSource.openFile : KeylogSource := ⟨none, none, 0, []⟩

/-- The whole lines of the text read, and what is left behind the last of them. -/
def frame (unfinished : List Char) (buf : List UInt8) : List Char × List Char :=
  if buf.isEmpty && unfinished.isEmpty then ([], unfinished)
  else
    let pending := unfinished ++ fromUtf8Lossy buf
    let tail := pending.rtakeWhile (· ≠ '\n')
    if tail.length < pending.length then (pending.take (pending.length - tail.length), tail)
    else ([], pending)

def KeylogSource.replaced (s : KeylogSource) (d : Disk) : Bool :=
  match s.id, d.pathId with
  | some held, some now => held ≠ now
  | _, _ => false

/-- The source with the file open that is to be read, if there is one. -/
def KeylogSource.reopen (s : KeylogSource) (d : Disk) : Option KeylogSource :=
  if s.handle.isNone || s.replaced d then
    d.pathId.map (fun now =>
      { s with
        handle := some now
        id := some now
        consumed := if s.replaced d then 0 else s.consumed })
  else some s

def KeylogSource.readOn (s : KeylogSource) (content : List UInt8) (replaced : Bool) :
    KeylogSource × PollOutcome :=
  let truncated := !replaced && content.length < s.consumed
  let consumed := if truncated then 0 else s.consumed
  let reset := if replaced then some .replaced else if truncated then some .truncated else none
  let unfinished := if reset.isSome then [] else s.unfinished
  if content.length ≤ consumed then
    ({ s with consumed := consumed, unfinished := unfinished }, { lines := [], reset := reset })
  else
    let buf := content.drop consumed
    let framed := frame unfinished buf
    ({ s with consumed := consumed + buf.length, unfinished := framed.2 },
      { lines := framed.1, reset := reset })

def KeylogSource.pollFile (s : KeylogSource) (d : Disk) : KeylogSource × Option ℕ × PollOutcome :=
  match s.reopen d with
  | none => (s, none, {})
  | some opened =>
    let read := opened.readOn (contentOf ((opened.handle.bind (d.files[·]?)).getD []))
      (s.replaced d)
    (read.1, opened.handle, read.2)

/-! ## Histories -/

structure System where
  disk : Disk
  source : KeylogSource

def System.start : System := ⟨⟨[], false⟩, .openFile⟩

inductive Action
  | append (lines : List Line)
  | renameAway
  | recreate
  | poll
  deriving DecidableEq

/-- Lines that a poll returned, with the file that they were read from. -/
abbrev Returned := ℕ × List Char

def System.step (s : System) : Action → Option (System × List Returned)
  | .append lines =>
    if s.disk.files.isEmpty then none
    else some (⟨{ s.disk with files := s.disk.files.modify (s.disk.files.length - 1) (· ++ lines) },
      s.source⟩, [])
  | .renameAway =>
    if s.disk.linked then some (⟨{ s.disk with linked := false }, s.source⟩, []) else none
  | .recreate =>
    if s.disk.linked then none else some (⟨⟨s.disk.files ++ [[]], true⟩, s.source⟩, [])
  | .poll =>
    let (source, file, outcome) := s.source.pollFile s.disk
    some (⟨s.disk, source⟩, (file.map (fun i => (i, outcome.lines))).toList)

def textOf (lines : List Line) : List Char :=
  lines.flatMap (fun line => fromUtf8Lossy (line ++ [10]))

def textFrom (i : ℕ) (trace : List Returned) : List Char :=
  (trace.filter (fun r => r.1 = i)).flatMap Prod.snd

/-- All of the producer's file has been read, or there is nothing in it. -/
def System.Finished (s : System) : Prop :=
  ∀ last ∈ s.disk.files.getLast?, last = [] ∨
    s.source.handle = some (s.disk.files.length - 1) ∧ s.source.consumed = (contentOf last).length

/-! ## Lines and their text -/

theorem exists_lossyFrom_line {q : Option Awaited} (hq : ∀ a ∈ q, 0x80 ≤ a.low.toNat)
    (bs : List UInt8) :
    ∃ text, ∀ rest, lossyFrom q (bs ++ 10 :: rest) = text ++ '\n' :: lossyFrom none rest := by
  have hfeed : ∀ a : Awaited, 0x80 ≤ a.low.toNat → ¬ (a.low ≤ 10 ∧ (10 : UInt8) ≤ a.high) := by
    rintro a ha ⟨hle, -⟩
    have hnat : a.low.toNat ≤ 10 := hle
    omega
  induction bs generalizing q with
  | nil =>
    have hnone : ∀ rest, lossyFrom none (10 :: rest) = '\n' :: lossyFrom none rest := by
      intro rest
      rw [lossyFrom, if_pos (by decide)]
      rfl
    cases q with
    | none => exact ⟨[], hnone⟩
    | some a =>
      refine ⟨[replacement], fun rest => ?_⟩
      rw [nil_append, lossyFrom_of_not_next (hfeed a (hq a rfl)), hnone]
      rfl
  | cons b bs ih =>
    obtain ⟨plain, hplain⟩ := @ih none (by simp)
    have hnone : ∃ text, ∀ rest,
        lossyFrom none (b :: bs ++ 10 :: rest) = text ++ '\n' :: lossyFrom none rest := by
      by_cases hlow : b < 0x80
      · refine ⟨ofByte b :: plain, fun rest => ?_⟩
        rw [cons_append, lossyFrom, if_pos hlow, hplain]
        rfl
      · cases hlead : lossyLead b with
        | none =>
          refine ⟨replacement :: plain, fun rest => ?_⟩
          simp only [cons_append, lossyFrom, if_neg hlow, hlead, hplain]
        | some a =>
          have hsound := (sound_of_lossyLead hlead).low_ge
          obtain ⟨text, htext⟩ := @ih (some a) (by simpa using hsound)
          refine ⟨text, fun rest => ?_⟩
          simp only [cons_append, lossyFrom, if_neg hlow, hlead, htext]
    cases q with
    | none => exact hnone
    | some a =>
      by_cases hnext : a.low ≤ b ∧ b ≤ a.high
      · cases hrest : a.rest with
        | zero =>
          refine ⟨Char.ofNat (64 * a.code + (b.toNat - 0x80)) :: plain, fun rest => ?_⟩
          simp only [cons_append, lossyFrom, if_pos hnext, hrest, hplain]
        | succ n =>
          obtain ⟨text, htext⟩ := @ih (some ⟨n, 0x80, 0xBF, 64 * a.code + (b.toNat - 0x80)⟩)
            (by simp)
          refine ⟨text, fun rest => ?_⟩
          simp only [cons_append, lossyFrom, if_pos hnext, hrest, htext]
      · obtain ⟨text, htext⟩ := hnone
        refine ⟨replacement :: text, fun rest => ?_⟩
        rw [cons_append, lossyFrom_of_not_next hnext, ← cons_append, htext]
        rfl

variable {file : List Line} {n i : ℕ} (a : List Line) (line : Line) (lines b : List Line)

theorem exists_line_text :
    ∃ text, fromUtf8Lossy (line ++ [10]) = text ++ ['\n'] ∧
      ∀ rest, fromUtf8Lossy (line ++ 10 :: rest) = text ++ '\n' :: fromUtf8Lossy rest := by
  obtain ⟨text, htext⟩ := @exists_lossyFrom_line none (by simp) line
  exact ⟨text, htext [], htext⟩

theorem contentOf_cons : contentOf (line :: lines) = line ++ 10 :: contentOf lines := by
  simp [contentOf]

theorem textOf_append : textOf (a ++ b) = textOf a ++ textOf b :=
  flatMap_append

theorem textOf_singleton : textOf [line] = fromUtf8Lossy (line ++ [10]) :=
  flatMap_singleton _ _

theorem fromUtf8Lossy_contentOf : fromUtf8Lossy (contentOf lines) = textOf lines := by
  induction lines with
  | nil => rfl
  | cons line lines ih =>
    obtain ⟨text, hline, hrest⟩ := exists_line_text line
    have hcons := textOf_append [line] lines
    rw [singleton_append] at hcons
    rw [contentOf_cons, hrest, ih, hcons, textOf_singleton, hline, append_assoc, singleton_append]

theorem frame_contentOf {lines : List Line} (h : lines ≠ []) :
    frame [] (contentOf lines) = (textOf lines, []) := by
  have hne : (contentOf lines).isEmpty = false := by
    obtain ⟨line, rest, rfl⟩ := exists_cons_of_ne_nil h
    simp [contentOf]
  obtain ⟨front, last, rfl⟩ := (eq_nil_or_concat' lines).resolve_left h
  obtain ⟨text, hlast, -⟩ := exists_line_text last
  have htext : textOf (front ++ [last]) = textOf front ++ text ++ ['\n'] := by
    rw [textOf_append, textOf_singleton, hlast, append_assoc]
  have htail : (textOf (front ++ [last])).rtakeWhile (· ≠ '\n') = [] := by
    rw [htext, rtakeWhile_concat_neg]
    simp
  have hpos : 0 < (textOf (front ++ [last])).length := by
    rw [htext]
    simp
  rw [frame, hne]
  simp only [Bool.false_and, Bool.false_eq_true, if_false, nil_append, fromUtf8Lossy_contentOf,
    htail, length_nil, hpos, if_true, Nat.sub_zero, take_length]

theorem contentOf_append : contentOf (a ++ b) = contentOf a ++ contentOf b :=
  flatMap_append

theorem contentOf_eq_nil {lines : List Line} (h : contentOf lines = []) : lines = [] := by
  cases lines with
  | nil => rfl
  | cons line lines => simp [contentOf_cons] at h

theorem length_contentOf (file : List Line) (n : ℕ) :
    (contentOf file).length =
      (contentOf (file.take n)).length + (contentOf (file.drop n)).length := by
  rw [← length_append, ← contentOf_append, take_append_drop]

theorem take_eq_of_length (h : (contentOf (file.take n)).length = (contentOf file).length) :
    file.take n = file := by
  have hlength := length_contentOf file n
  have hdrop := contentOf_eq_nil (eq_nil_of_length_eq_zero (by omega :
    (contentOf (file.drop n)).length = 0))
  have hsplit := take_append_drop n file
  rwa [hdrop, append_nil] at hsplit

/-! ## One poll -/

theorem readOn_contentOf {s : KeylogSource} (hunfinished : s.unfinished = [])
    (hconsumed : s.consumed = (contentOf (file.take n)).length) (replaced : Bool) :
    ∃ reset, s.readOn (contentOf file) replaced =
      ({ s with consumed := (contentOf file).length, unfinished := [] },
        ⟨textOf (file.drop n), reset⟩) := by
  have hlength := length_contentOf file n
  have htruncated : decide ((contentOf file).length < s.consumed) = false := by
    simp only [decide_eq_false_iff_not]
    omega
  refine ⟨if replaced then some .replaced else none, ?_⟩
  rw [KeylogSource.readOn]
  simp only [htruncated, Bool.and_false, Bool.false_eq_true, if_false, hunfinished, ite_self]
  by_cases hall : (contentOf file).length ≤ s.consumed
  · have hdrop := contentOf_eq_nil (eq_nil_of_length_eq_zero (by omega :
      (contentOf (file.drop n)).length = 0))
    rw [if_pos hall, hdrop, Nat.le_antisymm hall (by omega)]
    rfl
  · have hbuf : (contentOf file).drop s.consumed = contentOf (file.drop n) := by
      rw [hconsumed, ← take_append_drop n file, contentOf_append, take_append_drop, drop_left]
    have hne : file.drop n ≠ [] := by
      intro hnil
      rw [hnil] at hlength
      exact hall (by rw [hlength, hconsumed]; rfl)
    rw [if_neg hall, hbuf, frame_contentOf hne, hlength, hconsumed]

theorem textFrom_append (i : ℕ) (trace shown : List Returned) :
    textFrom i (trace ++ shown) = textFrom i trace ++ textFrom i shown := by
  rw [textFrom, filter_append, flatMap_append, ← textFrom, ← textFrom]

theorem textFrom_one (i k : ℕ) (text : List Char) :
    textFrom i [(k, text)] = if k = i then text else [] := by
  by_cases h : k = i
  · simp [textFrom, h]
  · simp [textFrom, h]

theorem pathId_eq_some {d : Disk} (h : d.pathId = some i) : i + 1 = d.files.length := by
  unfold Disk.pathId at h
  split_ifs at h with hlinked
  obtain rfl := some.inj h
  have hpos : 0 < d.files.length := by
    rw [length_pos_iff]
    rintro hnil
    simp [hnil] at hlinked
  omega

/-- What was read of each file, while no line of a file that was replaced is missing. -/
structure Inv (s : System) (trace : List Returned) : Prop where
  unfinished : s.source.unfinished = []
  id_eq : s.source.id = s.source.handle
  fresh : s.source.handle = none → s.source.consumed = 0
  held : ∀ i, s.source.handle = some i → ∃ file n, s.disk.files[i]? = some file ∧
    s.source.consumed = (contentOf (file.take n)).length ∧
    textFrom i trace = textOf (file.take n) ∧
    (i + 1 < s.disk.files.length → file.take n = file)
  before : ∀ j file, s.disk.files[j]? = some file → s.source.handle ≠ some j →
    j + 1 < s.disk.files.length → textFrom j trace = textOf file
  unread : ∀ j, s.source.handle ≠ some j → s.disk.files.length ≤ j + 1 → textFrom j trace = []

section Steps

variable {s : System} {trace : List Returned}

theorem pollFile_eq {source opened : KeylogSource} {d : Disk} (h : source.reopen d = some opened) :
    source.pollFile d =
      ((opened.readOn (contentOf ((opened.handle.bind (d.files[·]?)).getD []))
        (source.replaced d)).1, opened.handle,
      (opened.readOn (contentOf ((opened.handle.bind (d.files[·]?)).getD []))
        (source.replaced d)).2) := by
  rw [KeylogSource.pollFile, h]

theorem pollFile_of_reopen {source opened : KeylogSource} {d : Disk} {i : ℕ} {file : List Line}
    {n : ℕ} (hreopen : source.reopen d = some opened) (hhandle : opened.handle = some i)
    (hid : opened.id = some i) (hunfinished : opened.unfinished = [])
    (hfile : d.files[i]? = some file) (hconsumed : opened.consumed = (contentOf (file.take n)).length) :
    ∃ reset, source.pollFile d = (⟨some i, some i, (contentOf file).length, []⟩, some i,
      ⟨textOf (file.drop n), reset⟩) := by
  obtain ⟨reset, hread⟩ := readOn_contentOf hunfinished hconsumed (source.replaced d)
  refine ⟨reset, ?_⟩
  rw [pollFile_eq hreopen]
  simp only [hhandle, bind_some, hfile, getD_some, hread, hid]

/-- A poll that has no file to read finds nothing. Any other reads the rest of the file under the
path, or of the one it holds while the path is gone. -/
theorem Inv.pollFile (h : Inv s trace) :
    (s.source.handle = none ∧ s.disk.pathId = none ∧
      s.source.pollFile s.disk = (s.source, none, {})) ∨
    ∃ i file n reset, s.disk.files[i]? = some file ∧ textFrom i trace = textOf (file.take n) ∧
      (s.disk.pathId = some i ∨ s.disk.pathId = none ∧ s.source.handle = some i) ∧
      s.source.pollFile s.disk = (⟨some i, some i, (contentOf file).length, []⟩, some i,
        ⟨textOf (file.drop n), reset⟩) := by
  have hopen : ∀ {i : ℕ}, s.disk.pathId = some i → s.source.handle ≠ some i →
      (s.source.handle.isNone || s.source.replaced s.disk) = true →
      ∃ file reset, s.disk.files[i]? = some file ∧ textFrom i trace = textOf (file.take 0) ∧
        s.source.pollFile s.disk = (⟨some i, some i, (contentOf file).length, []⟩, some i,
          ⟨textOf (file.drop 0), reset⟩) := by
    intro i hpath hnot hreopen
    have hlast := pathId_eq_some hpath
    have hfile := List.getElem?_eq_getElem (by omega : i < s.disk.files.length)
    have hconsumed : (if s.source.replaced s.disk then 0 else s.source.consumed) = 0 := by
      split_ifs with hreplaced
      · rfl
      · rw [Bool.or_eq_true, isNone_iff_eq_none] at hreopen
        exact h.fresh (hreopen.resolve_right hreplaced)
    have hopened : s.source.reopen s.disk = some
        { s.source with handle := some i, id := some i, consumed := 0 } := by
      rw [KeylogSource.reopen, if_pos hreopen, hpath, hconsumed]
      rfl
    obtain ⟨reset, hpoll⟩ := @pollFile_of_reopen _ _ _ i _ 0 hopened rfl rfl h.unfinished hfile rfl
    exact ⟨_, reset, hfile, h.unread i hnot (by omega), hpoll⟩
  cases hhandle : s.source.handle with
  | none =>
    cases hpath : s.disk.pathId with
    | none =>
      refine .inl ⟨rfl, rfl, ?_⟩
      rw [KeylogSource.pollFile, KeylogSource.reopen, hhandle, hpath]
      rfl
    | some i =>
      obtain ⟨file, reset, hfile, htext, hpoll⟩ :=
        hopen hpath (by simp [hhandle]) (by simp [hhandle])
      exact .inr ⟨i, file, 0, reset, hfile, htext, .inl rfl, hpoll⟩
  | some i =>
    have hid : s.source.id = some i := h.id_eq.trans hhandle
    obtain ⟨file, n, hfile, hconsumed, htext, -⟩ := h.held i hhandle
    -- The file held is read on unless the path names another one.
    have hkeep : s.source.replaced s.disk = false → ∃ reset, s.source.pollFile s.disk =
        (⟨some i, some i, (contentOf file).length, []⟩, some i, ⟨textOf (file.drop n), reset⟩) := by
      intro hsame
      refine pollFile_of_reopen ?_ hhandle hid h.unfinished hfile hconsumed
      rw [KeylogSource.reopen, hhandle, hsame]
      rfl
    cases hpath : s.disk.pathId with
    | none =>
      obtain ⟨reset, hpoll⟩ := hkeep (by rw [KeylogSource.replaced, hid, hpath])
      exact .inr ⟨i, file, n, reset, hfile, htext, .inr ⟨rfl, rfl⟩, hpoll⟩
    | some k =>
      by_cases hsame : i = k
      · subst hsame
        obtain ⟨reset, hpoll⟩ := hkeep (by rw [KeylogSource.replaced, hid, hpath]; simp)
        exact .inr ⟨i, file, n, reset, hfile, htext, .inl rfl, hpoll⟩
      · obtain ⟨file', reset, hfile', htext', hpoll⟩ := hopen hpath (by simpa [hhandle] using hsame)
          (by rw [KeylogSource.replaced, hid, hpath]; simp [hsame])
        exact .inr ⟨k, file', 0, reset, hfile', htext', .inl rfl, hpoll⟩

theorem step_poll (s : System) :
    s.step .poll = some (⟨s.disk, (s.source.pollFile s.disk).1⟩,
      ((s.source.pollFile s.disk).2.1.map
        (fun i => (i, (s.source.pollFile s.disk).2.2.lines))).toList) := rfl

theorem Inv.start : Inv .start [] where
  unfinished := rfl
  id_eq := rfl
  fresh _ := rfl
  held i hi := by cases hi
  before j file hfile := by cases hfile
  unread j _ _ := rfl

theorem Inv.relink (h : Inv s trace) (linked : Bool) :
    Inv ⟨{ s.disk with linked := linked }, s.source⟩ trace :=
  ⟨h.unfinished, h.id_eq, h.fresh, h.held, h.before, h.unread⟩

theorem Inv.append (h : Inv s trace) (lines : List Line) :
    Inv ⟨{ s.disk with files := s.disk.files.modify (s.disk.files.length - 1) (· ++ lines) },
      s.source⟩ trace := by
  have hget : ∀ {j file}, s.disk.files[j]? = some file →
      (s.disk.files.modify (s.disk.files.length - 1) (· ++ lines))[j]? =
        some (if j + 1 < s.disk.files.length then file else file ++ lines) := by
    intro j file hfile
    have hlt := (List.getElem?_eq_some_iff.mp hfile).1
    rw [List.getElem?_modify, hfile, Option.map_eq_map, map_some]
    by_cases hlast : j + 1 < s.disk.files.length
    · rw [if_pos hlast, if_neg (by omega)]
    · rw [if_neg hlast, if_pos (by omega)]
  refine
    { unfinished := h.unfinished
      id_eq := h.id_eq
      fresh := h.fresh
      held := fun i hi => ?_
      before := fun j file hfile hnot hlt => ?_
      unread := fun j hnot hle => h.unread j hnot (by simpa using hle) }
  · obtain ⟨file, n, hfile, hconsumed, htext, hall⟩ := h.held i hi
    by_cases hlast : i + 1 < s.disk.files.length
    · refine ⟨file, n, ?_, hconsumed, htext, fun _ => hall hlast⟩
      rw [hget hfile, if_pos hlast]
    · have htake : (file ++ lines).take (min n file.length) = file.take n := by
        rw [take_append_of_le_length (by omega), ← take_take, take_length]
      refine ⟨file ++ lines, min n file.length, ?_, ?_, ?_, fun hlt => ?_⟩
      · rw [hget hfile, if_neg hlast]
      · rw [htake]
        exact hconsumed
      · rw [htake]
        exact htext
      · exact absurd (by simpa using hlt) hlast
  · have hlt' : j + 1 < s.disk.files.length := by simpa using hlt
    have hold := List.getElem?_eq_getElem (by omega : j < s.disk.files.length)
    have hnew := hget hold
    rw [if_pos hlt'] at hnew
    obtain rfl := some.inj (hnew.symm.trans hfile)
    exact h.before j _ hold hnot hlt'

theorem Inv.recreate (h : Inv s trace) (hfinished : s.Finished) :
    Inv ⟨⟨s.disk.files ++ [[]], true⟩, s.source⟩ trace := by
  have hlength : (s.disk.files ++ [[]]).length = s.disk.files.length + 1 := by simp
  have hlast : ∀ {j file}, s.disk.files[j]? = some file → s.disk.files.length ≤ j + 1 →
      s.disk.files.getLast? = some file ∧ s.disk.files.length - 1 = j := by
    intro j file hfile hle
    have hlt := (List.getElem?_eq_some_iff.mp hfile).1
    have hj : s.disk.files.length - 1 = j := by omega
    exact ⟨by rw [List.getLast?_eq_getElem?, hj, hfile], hj⟩
  refine
    { unfinished := h.unfinished
      id_eq := h.id_eq
      fresh := h.fresh
      held := fun i hi => ?_
      before := fun j file hfile hnot hlt => ?_
      unread := fun j hnot hle => h.unread j hnot (by simp only [hlength] at hle; omega) }
  · obtain ⟨file, n, hfile, hconsumed, htext, hall⟩ := h.held i hi
    have hlt := (List.getElem?_eq_some_iff.mp hfile).1
    refine ⟨file, n, ?_, hconsumed, htext, fun _ => ?_⟩
    · rw [List.getElem?_append_left hlt]
      exact hfile
    · by_cases hearlier : i + 1 < s.disk.files.length
      · exact hall hearlier
      · rcases hfinished file (hlast hfile (Nat.not_lt.mp hearlier)).1 with rfl | ⟨-, hread⟩
        · exact take_nil
        · exact take_eq_of_length (hconsumed.symm.trans hread)
  · simp only [hlength] at hlt
    rw [List.getElem?_append_left (by omega)] at hfile
    by_cases hearlier : j + 1 < s.disk.files.length
    · exact h.before j file hfile hnot hearlier
    · obtain ⟨hlastFile, hindex⟩ := hlast hfile (Nat.not_lt.mp hearlier)
      rcases hfinished file hlastFile with rfl | ⟨hheld, -⟩
      · exact h.unread j hnot (Nat.not_lt.mp hearlier)
      · exact absurd (hindex ▸ hheld) hnot

theorem Inv.poll (h : Inv s trace) {next : System} {shown : List Returned}
    (hstep : s.step .poll = some (next, shown)) : Inv next (trace ++ shown) := by
  rw [step_poll] at hstep
  rcases h.pollFile with ⟨-, -, hpoll⟩ | ⟨i, file, n, reset, hfile, htext, hpath, hpoll⟩
  · rw [hpoll] at hstep
    obtain ⟨rfl, rfl⟩ := Prod.mk.inj (some.inj hstep)
    simpa using h
  · rw [hpoll] at hstep
    obtain ⟨rfl, rfl⟩ := Prod.mk.inj (some.inj hstep)
    have hother : ∀ {j}, some i ≠ some j → textFrom j (trace ++ [(i, textOf (file.drop n))])
        = textFrom j trace := by
      intro j hne
      rw [textFrom_append, textFrom_one, if_neg (fun hij => hne (congrArg some hij)), append_nil]
    refine
      { unfinished := rfl
        id_eq := rfl
        fresh := fun hnone => by cases hnone
        held := fun k hk => ?_
        before := fun j file' hfile' hnot hearlier => ?_
        unread := fun j hnot hle => ?_ }
    · obtain rfl := some.inj hk
      refine ⟨file, file.length, hfile, by rw [take_length], ?_, fun _ => take_length⟩
      rw [map_some, toList_some, textFrom_append, textFrom_one, if_pos rfl, htext,
        ← textOf_append, take_append_drop, take_length]
    · refine (hother hnot).trans ?_
      by_cases hheld : s.source.handle = some j
      · obtain ⟨file'', m, hfile'', -, htext'', hall⟩ := h.held j hheld
        obtain rfl := some.inj (hfile''.symm.trans hfile')
        rw [htext'', hall hearlier]
      · exact h.before j file' hfile' hheld hearlier
    · refine (hother hnot).trans (h.unread j (fun hheld => ?_) hle)
      -- The file held is not behind the one that was read.
      obtain ⟨file'', m, hfile'', -⟩ := h.held j hheld
      have hltj := (List.getElem?_eq_some_iff.mp hfile'').1
      have hle' : s.disk.files.length ≤ j + 1 := hle
      rcases hpath with hpath | ⟨-, hsame⟩
      · have hlast := pathId_eq_some hpath
        exact hnot (congrArg some (by omega))
      · exact hnot (hsame.symm.trans hheld)

/-- Each time the producer makes a new file, the one before was read to its end. -/
def FinishedFirst (actions : List Action) : Prop :=
  ∀ before rest s trace, actions = before ++ .recreate :: rest →
    run System.step .start before = some (s, trace) → s.Finished

theorem inv_run {actions : List Action} (hrun : run System.step .start actions = some (s, trace)) :
    FinishedFirst actions → Inv s trace := by
  refine @run_invariant _ _ _ System.step .start s actions trace
    (fun before s trace => FinishedFirst before → Inv s trace) (fun _ => Inv.start) ?_ hrun
  intro before s trace action next shown hbefore ih hstep hfinished
  have hinv := ih (fun first rest s' trace' hsplit => hfinished first (rest ++ [action]) s' trace'
    (by rw [hsplit, append_assoc, cons_append]))
  cases action with
  | append lines =>
    simp only [System.step] at hstep
    split_ifs at hstep with hempty
    obtain ⟨rfl, rfl⟩ := Prod.mk.inj (some.inj hstep)
    rw [append_nil]
    exact hinv.append lines
  | renameAway =>
    simp only [System.step] at hstep
    split_ifs at hstep with hlinked
    obtain ⟨rfl, rfl⟩ := Prod.mk.inj (some.inj hstep)
    rw [append_nil]
    exact hinv.relink false
  | recreate =>
    simp only [System.step] at hstep
    split_ifs at hstep with hlinked
    obtain ⟨rfl, rfl⟩ := Prod.mk.inj (some.inj hstep)
    rw [append_nil]
    exact hinv.recreate (hfinished before [] s trace rfl hbefore)
  | poll => exact hinv.poll hstep

end Steps

/-- In every history in which each file was read to its end before the next one was made, the lines
of a file are returned once and in order, none of a file that was replaced is missing, and a poll
that finds the producer's file returns what is missing of it. -/
theorem returns_every_line (actions : List Action) (s : System) (trace : List Returned)
    (hrun : run System.step .start actions = some (s, trace)) (hfinished : FinishedFirst actions) :
    (∀ j file, s.disk.files[j]? = some file → ∃ n, textFrom j trace = textOf (file.take n)) ∧
      (∀ j file, s.disk.files[j]? = some file → j + 1 < s.disk.files.length →
        textFrom j trace = textOf file) ∧
      ((s.disk.pathId ≠ none ∨ s.source.handle = some (s.disk.files.length - 1)) →
        ∃ next shown, s.step .poll = some (next, shown) ∧
          ∀ j file, s.disk.files[j]? = some file → textFrom j (trace ++ shown) = textOf file) := by
  have hinv := inv_run hrun hfinished
  have hbefore : ∀ {s : System} {trace : List Returned}, Inv s trace → ∀ j file,
      s.disk.files[j]? = some file → j + 1 < s.disk.files.length →
      textFrom j trace = textOf file := by
    intro s trace h j file hfile hearlier
    by_cases hheld : s.source.handle = some j
    · obtain ⟨file', n, hfile', -, htext, hall⟩ := h.held j hheld
      obtain rfl := some.inj (hfile'.symm.trans hfile)
      rw [htext, hall hearlier]
    · exact h.before j file hfile hheld hearlier
  refine ⟨fun j file hfile => ?_, hbefore hinv, fun hfound => ?_⟩
  · by_cases hearlier : j + 1 < s.disk.files.length
    · exact ⟨file.length, by rw [hbefore hinv j file hfile hearlier, take_length]⟩
    · by_cases hheld : s.source.handle = some j
      · obtain ⟨file', n, hfile', -, htext, -⟩ := hinv.held j hheld
        obtain rfl := some.inj (hfile'.symm.trans hfile)
        exact ⟨n, htext⟩
      · exact ⟨0, hinv.unread j hheld (Nat.not_lt.mp hearlier)⟩
  · have hnext : s.step .poll = some (_, _) := step_poll s
    refine ⟨_, _, hnext, fun j file hfile => ?_⟩
    have hinv' := hinv.poll hnext
    by_cases hearlier : j + 1 < s.disk.files.length
    · exact hbefore hinv' j file hfile hearlier
    · -- The poll has read the producer's file to its end.
      have hlt := (List.getElem?_eq_some_iff.mp hfile).1
      rcases hinv.pollFile with ⟨hnone, hgone, -⟩ |
        ⟨i, file', n, reset, hfile', htext, hpath, hpoll⟩
      · rw [hnone, hgone] at hfound
        simp at hfound
      · have hi : i = j := by
          rcases hpath with hpath | ⟨hgone, hheld⟩
          · have hlast := pathId_eq_some hpath
            omega
          · have hlast := (hheld.symm.trans (hfound.resolve_left (fun hne => hne hgone)))
            have hindex := some.inj hlast
            omega
        subst hi
        obtain rfl := some.inj (hfile'.symm.trans hfile)
        rw [hpoll, map_some, toList_some, textFrom_append, textFrom_one, if_pos rfl,
          htext, ← textOf_append, take_append_drop]

def rotatedOnce : List Action := [.recreate, .append [[97]], .poll, .renameAway, .recreate]

theorem run_rotatedOnce : run System.step .start rotatedOnce =
    some (⟨⟨[[[97]], []], true⟩, ⟨some 0, some 0, 2, []⟩⟩, [(0, ['a', '\n'])]) := rfl

theorem returns_every_line_rotated : textFrom 0 [(0, ['a', '\n'])] = textOf [[97]] := by
  refine (returns_every_line rotatedOnce _ _ run_rotatedOnce ?_).2.1 0 [[97]] rfl (by decide)
  intro before rest s trace hsplit hrun
  rw [rotatedOnce] at hsplit
  rcases before with _ | ⟨_, _ | ⟨_, _ | ⟨_, _ | ⟨_, _ | ⟨_, before⟩⟩⟩⟩⟩ <;>
    simp only [nil_append, cons_append, List.cons.injEq, reduceCtorEq, false_and,
      and_false, nil_eq_append_iff] at hsplit
  · obtain ⟨rfl, -⟩ := Prod.mk.inj (some.inj hrun)
    intro last hlast
    cases hlast
  · obtain ⟨rfl, rfl, rfl, rfl, -⟩ := hsplit
    obtain ⟨rfl, -⟩ := Prod.mk.inj (some.inj hrun)
    intro last hlast
    obtain rfl := some.inj hlast
    exact .inr ⟨rfl, rfl⟩

/-! ## The line that is lost -/

/-- The source has gone over to another file, and the path never names this one again. -/
structure LeftBehind (i : ℕ) (file : List Line) (s : System) : Prop where
  file_eq : s.disk.files[i]? = some file
  replaced : i + 1 < s.disk.files.length
  id_eq : s.source.id = s.source.handle
  other : ∃ k, s.source.handle = some k ∧ k ≠ i

theorem handle_readOn (s : KeylogSource) (content : List UInt8) (replaced : Bool) :
    (s.readOn content replaced).1.handle = s.handle ∧ (s.readOn content replaced).1.id = s.id := by
  unfold KeylogSource.readOn
  dsimp only
  split_ifs <;> exact ⟨rfl, rfl⟩

theorem LeftBehind.step {s next : System} {shown : List Returned} {action : Action}
    (h : LeftBehind i file s) (hstep : s.step action = some (next, shown)) :
    LeftBehind i file next ∧ textFrom i shown = [] := by
  obtain ⟨k, hk, hne⟩ := h.other
  have hreplaced := h.replaced
  cases action with
  | append lines =>
    simp only [System.step] at hstep
    split_ifs at hstep with hempty
    obtain ⟨rfl, rfl⟩ := Prod.mk.inj (some.inj hstep)
    refine ⟨⟨?_, by simpa using h.replaced, h.id_eq, h.other⟩, rfl⟩
    rw [List.getElem?_modify, h.file_eq, Option.map_eq_map, map_some, if_neg (by omega)]
  | renameAway =>
    simp only [System.step] at hstep
    split_ifs at hstep with hlinked
    obtain ⟨rfl, rfl⟩ := Prod.mk.inj (some.inj hstep)
    exact ⟨⟨h.file_eq, h.replaced, h.id_eq, h.other⟩, rfl⟩
  | recreate =>
    simp only [System.step] at hstep
    split_ifs at hstep with hlinked
    obtain ⟨rfl, rfl⟩ := Prod.mk.inj (some.inj hstep)
    refine ⟨⟨?_, ?_, h.id_eq, h.other⟩, rfl⟩
    · rw [List.getElem?_append_left (by omega)]
      exact h.file_eq
    · rw [length_append]
      omega
  | poll =>
    have hopened : ∃ opened m, s.source.reopen s.disk = some opened ∧ opened.handle = some m ∧
        opened.id = some m ∧ m ≠ i := by
      rw [KeylogSource.reopen]
      by_cases hopen : (s.source.handle.isNone || s.source.replaced s.disk) = true
      · rw [if_pos hopen]
        have hover : s.source.replaced s.disk = true := by simpa [hk] using hopen
        cases hpath : s.disk.pathId with
        | none =>
          rw [KeylogSource.replaced, hpath] at hover
          simp at hover
        | some m =>
          have hlast := pathId_eq_some hpath
          exact ⟨_, m, rfl, rfl, rfl, by omega⟩
      · rw [if_neg hopen]
        exact ⟨_, k, rfl, hk, h.id_eq.trans hk, hne⟩
    obtain ⟨opened, m, hreopen, hhandle, hid, hm⟩ := hopened
    have hread := handle_readOn opened (contentOf ((opened.handle.bind (s.disk.files[·]?)).getD []))
      (s.source.replaced s.disk)
    rw [step_poll, pollFile_eq hreopen] at hstep
    obtain ⟨rfl, rfl⟩ := Prod.mk.inj (some.inj hstep)
    refine ⟨⟨h.file_eq, h.replaced, hread.2.trans (hid.trans (hhandle.symm.trans hread.1.symm)),
      m, hread.1.trans hhandle, hm⟩, ?_⟩
    rw [hhandle, map_some, toList_some, textFrom_one, if_neg hm]

theorem LeftBehind.run {i : ℕ} {file : List Line} {start s : System} {later : List Action}
    {shown : List Returned} (h : LeftBehind i file start)
    (hrun : Sipnab.run System.step start later = some (s, shown)) :
    LeftBehind i file s ∧ textFrom i shown = [] := by
  refine @run_invariant _ _ _ System.step start s later shown
    (fun _ s shown => LeftBehind i file s ∧ textFrom i shown = []) ⟨h, rfl⟩ ?_ hrun
  intro before s trace action next more _ ih hstep
  obtain ⟨hnext, hmore⟩ := ih.1.step hstep
  exact ⟨hnext, by rw [textFrom_append, ih.2, hmore, append_nil]⟩

/-- A line, a poll, another line, and a new file before the next poll. -/
def rotated : List Action :=
  [.recreate, .append [[97]], .poll, .append [[98]], .renameAway, .recreate, .poll]

theorem run_rotated : run System.step .start rotated =
    some (⟨⟨[[[97], [98]], []], true⟩, ⟨some 1, some 1, 0, []⟩⟩, [(0, ['a', '\n']), (1, [])]) := rfl

theorem second_line_lost :
    (∃ s trace, run System.step .start rotated = some (s, trace)) ∧
      ∀ later s trace, run System.step .start (rotated ++ later) = some (s, trace) →
        s.disk.files[0]? = some [[97], [98]] ∧ textFrom 0 trace = textOf [[97]] ∧
          textFrom 0 trace ≠ textOf [[97], [98]] := by
  refine ⟨⟨_, _, run_rotated⟩, fun later s trace hrun => ?_⟩
  obtain ⟨middle, seen, shown, hfirst, hlater, rfl⟩ := run_append hrun
  rw [run_rotated] at hfirst
  obtain ⟨rfl, rfl⟩ := Prod.mk.inj (some.inj hfirst)
  obtain ⟨hleft, hshown⟩ := @LeftBehind.run 0 [[97], [98]] _ _ _ _
    ⟨rfl, by decide, rfl, 1, rfl, by decide⟩ hlater
  rw [textFrom_append, hshown]
  exact ⟨hleft.file_eq, by decide, by decide⟩

end Sipnab.Keylog
