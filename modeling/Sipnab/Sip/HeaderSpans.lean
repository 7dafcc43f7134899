import Sipnab.Sip.HeaderReading

/-!
# The bytes of a header

The range of bytes that the parser records with a header is read again alone, as one header line with
its own continuation lines.
-/

namespace Sipnab

open Text List

variable {bytes : List UInt8} {r : ℕ × ℕ} {room : ℕ} (n : ℕ) (limits : ParserLimits)

/-! ## The lines and where they stand -/

def linesLen (lines : List (List UInt8)) : ℕ := (lines.map (fun line => line.length + 2)).sum

theorem linesLen_concat (lines : List (List UInt8)) (line : List UInt8) :
    linesLen (lines ++ [line]) = linesLen lines + line.length + 2 := by
  simp [linesLen]
  omega

theorem sectionLines_of_none (h : findCrlf bytes = none) (hne : bytes ≠ []) :
    sectionLines bytes = [bytes] := by
  rw [sectionLines]
  split
  · rw [if_neg (by rwa [List.isEmpty_iff])]
  · rename_i k hk
    rw [h] at hk
    cases hk

theorem sectionLines_of_some {k : ℕ} (h : findCrlf bytes = some k) (hk : k ≠ 0) :
    sectionLines bytes = bytes.take k :: sectionLines (bytes.drop (k + 2)) := by
  rw [sectionLines]
  split
  · rename_i hnone
    rw [h] at hnone
    cases hnone
  · rename_i j hj
    rw [h] at hj
    obtain rfl := Option.some.inj hj
    rw [if_neg hk]

variable {pos lo cap : ℕ} {rest seen : List (List UInt8)} {data : List UInt8} {text own : List Char}
  {span : Option (ℕ × ℕ)} {held : Option Bool}

theorem sectionLines_cons {line : List UInt8} (h : sectionLines bytes = line :: rest) :
    (findCrlf bytes = none ∧ line = bytes ∧ bytes ≠ [] ∧ rest = []) ∨
      (findCrlf bytes = some line.length ∧ line ≠ [] ∧ line = bytes.take line.length ∧
        rest = sectionLines (bytes.drop (line.length + 2))) := by
  rw [sectionLines] at h
  split at h
  · rename_i hnone
    split_ifs at h with hempty
    obtain ⟨rfl, rfl⟩ := List.cons.inj h
    exact Or.inl ⟨hnone, rfl, fun hnil => hempty (by rw [hnil]; rfl), rfl⟩
  · rename_i k hk
    split_ifs at h with hzero
    have hlength := length_le_of_findInfix hk
    obtain ⟨rfl, rfl⟩ := List.cons.inj h
    have htake : (bytes.take k).length = k := length_take_of_le (by omega)
    refine Or.inr ⟨by rw [htake]; exact hk, ?_, by rw [htake], by rw [htake]⟩
    rw [← length_pos_iff, htake]
    omega

theorem sectionLines_drop {line : List UInt8} (h : sectionLines bytes = line :: rest) :
    sectionLines (bytes.drop (line.length + 2)) = rest := by
  rcases sectionLines_cons h with ⟨-, rfl, -, rfl⟩ | ⟨-, -, -, hrest⟩
  · rw [drop_eq_nil_of_le (by omega), sectionLines]
    rfl
  · exact hrest.symm

theorem sectionLines_take {line : List UInt8} (h : sectionLines bytes = seen ++ line :: rest) :
    sectionLines (bytes.take (linesLen seen + line.length)) = seen ++ [line] := by
  induction seen generalizing bytes with
  | nil =>
    rw [show linesLen [] + line.length = line.length from Nat.zero_add _, nil_append]
    rcases sectionLines_cons h with ⟨hnone, rfl, hne, -⟩ | ⟨hfind, hne, htake, -⟩
    · rw [take_length]
      exact sectionLines_of_none hnone hne
    · have hnone : findCrlf (bytes.take line.length) = none :=
        findInfix_take_eq_none hfind (by simp)
      rw [← htake] at hnone ⊢
      exact sectionLines_of_none hnone hne
  | cons first seen ih =>
    have hlen : linesLen (first :: seen) + line.length =
        first.length + 2 + (linesLen seen + line.length) := by
      simp [linesLen]
      omega
    rcases sectionLines_cons h with ⟨-, -, -, hrest⟩ | ⟨hfind, hne, htake, hrest⟩
    · exact absurd hrest (by simp)
    · have hcut : findCrlf (bytes.take (linesLen (first :: seen) + line.length)) =
          some first.length := findInfix_take hfind (by rw [hlen]; simp)
      rw [sectionLines_of_some hcut (by rwa [ne_eq, length_eq_zero_iff]), take_take,
        min_eq_left (by omega), ← htake, drop_take, hlen, Nat.add_sub_cancel_left,
        ih hrest.symm]
      rfl

/-! ## Order of the ranges -/

def SpanIn (lo hi : ℕ) (r : ℕ × ℕ) : Prop := lo ≤ r.1 ∧ r.1 < r.2 ∧ r.2 ≤ hi

theorem SpanIn.mono {lo' hi hi' : ℕ} (h : SpanIn lo hi r) (hlo : lo' ≤ lo) (hhi : hi ≤ hi') :
    SpanIn lo' hi' r :=
  ⟨hlo.trans h.1, h.2.1, h.2.2.trans hhi⟩

theorem SpanIn.stretchTo {lo pos stop : ℕ} {r : ℕ × ℕ} (h : SpanIn lo pos r) (hstop : pos ≤ stop) :
    SpanIn lo (stop + 2) (stretchTo stop r) := by
  obtain ⟨hlo, hne, hhi⟩ := h
  refine ⟨hlo, ?_, ?_⟩
  · show r.1 < ite (stop < 2 ^ 32) stop r.2
    split_ifs <;> omega
  · show ite (stop < 2 ^ 32) stop r.2 ≤ stop + 2
    split_ifs <;> omega

theorem spanIn_of_spanOf {start stop : ℕ} (h : spanOf start stop = some r) :
    SpanIn start stop r := by
  rw [spanOf] at h
  split_ifs at h with hfits
  obtain rfl := Option.some.inj h
  exact ⟨Nat.le_refl _, hfits.2.2, Nat.le_refl _⟩

theorem spanIn_none (lo hi : ℕ) : ∀ r, (none : Option (ℕ × ℕ)) = some r → SpanIn lo hi r :=
  fun _ h => by cases h

def SpannedHeader.Before (a b : SpannedHeader) : Prop :=
  ∀ r, a.lineSpan = some r → ∀ s, b.lineSpan = some s → r.2 ≤ s.1

theorem lineSpan_of_mem_heldHeader (hmem : h ∈ heldHeader text span) :
    h.lineSpan = span ∧ parseHeaderLine text = some h.toSipHeader := by
  rw [heldHeader, Option.mem_toList, Option.map_eq_some_iff] at hmem
  obtain ⟨hdr, hparse, rfl⟩ := hmem
  exact ⟨rfl, hparse⟩

theorem spanIn_pendingSpans (cap : ℕ) (text : List Char) (lines : List (List UInt8))
    (hlo : lo ≤ pos) (hspan : ∀ r, span = some r → SpanIn lo pos r)
    (hmem : h ∈ pendingSpans cap text span pos lines) (hr : h.lineSpan = some r) :
    SpanIn lo (pos + linesLen lines) r := by
  induction lines generalizing text span lo pos with
  | nil =>
    rw [(lineSpan_of_mem_heldHeader hmem).1] at hr
    exact (hspan r hr).mono (Nat.le_refl _) (Nat.le_add_right _ _)
  | cons line rest ih =>
    have hlen : pos + line.length + 2 + linesLen rest = pos + linesLen (line :: rest) := by
      simp [linesLen]
      omega
    rw [← hlen]
    have hnext : ∀ r, span = some r → SpanIn lo (pos + line.length + 2) r :=
      fun r hr => (hspan r hr).mono (Nat.le_refl _) (by omega)
    rw [pendingSpans] at hmem
    cases hdecode : Utf8.decode line with
    | none =>
      rw [hdecode] at hmem
      exact ih text (by omega) hnext hmem
    | some next =>
      rw [hdecode] at hmem
      dsimp only at hmem
      split_ifs at hmem with hcont hcap hlong
      · refine ih _ (by omega) ?_ hmem
        intro r hr
        obtain ⟨before, hbefore, rfl⟩ := Option.map_eq_some_iff.mp hr
        exact (hspan before hbefore).stretchTo (Nat.le_add_right _ _)
      · exact ih text (by omega) hnext hmem
      · rcases mem_append.mp hmem with hheld | hrest
        · rw [(lineSpan_of_mem_heldHeader hheld).1] at hr
          exact (hnext r hr).mono (Nat.le_refl _) (Nat.le_add_right _ _)
        · exact ih [] (by omega) (spanIn_none _ _) hrest
      · rcases mem_append.mp hmem with hheld | hrest
        · rw [(lineSpan_of_mem_heldHeader hheld).1] at hr
          exact (hnext r hr).mono (Nat.le_refl _) (Nat.le_add_right _ _)
        · exact ih next (by omega)
            (fun r hr => (spanIn_of_spanOf hr).mono hlo (by omega)) hrest

theorem pairwise_pendingSpans (cap : ℕ) (text : List Char) (lines : List (List UInt8))
    (hspan : ∀ r, span = some r → SpanIn 0 pos r) :
    (pendingSpans cap text span pos lines).Pairwise SpannedHeader.Before := by
  have hheld (text : List Char) (span : Option (ℕ × ℕ)) :
      (heldHeader text span).Pairwise SpannedHeader.Before := by
    rw [heldHeader]
    cases parseHeaderLine text with
    | none => exact List.Pairwise.nil
    | some hdr => exact pairwise_singleton _ _
  induction lines generalizing text span pos with
  | nil => exact hheld text span
  | cons line rest ih =>
    have hnext : ∀ r, span = some r → SpanIn 0 (pos + line.length + 2) r :=
      fun r hr => (hspan r hr).mono (Nat.le_refl _) (by omega)
    rw [pendingSpans]
    cases hdecode : Utf8.decode line with
    | none => exact ih text hnext
    | some next =>
      dsimp only
      split_ifs with hcont hcap hlong
      · refine ih _ ?_
        intro r hr
        obtain ⟨before, hbefore, rfl⟩ := Option.map_eq_some_iff.mp hr
        exact (hspan before hbefore).stretchTo (Nat.le_add_right _ _)
      · exact ih text hnext
      · refine pairwise_append.mpr ⟨hheld text span, ih [] (spanIn_none _ _), ?_⟩
        intro a ha b hb r hr s hs
        rw [(lineSpan_of_mem_heldHeader ha).1] at hr
        have hstart := spanIn_pendingSpans cap [] rest (Nat.le_refl _) (spanIn_none _ _) hb hs
        have hend := (hspan r hr).2.2
        have hle := hstart.1
        omega
      · have hopen : ∀ r, spanOf pos (pos + line.length) = some r →
            SpanIn pos (pos + line.length + 2) r :=
          fun r hr => (spanIn_of_spanOf hr).mono (Nat.le_refl _) (by omega)
        refine pairwise_append.mpr
          ⟨hheld text span, ih next (fun r hr => (hopen r hr).mono (Nat.zero_le _) (Nat.le_refl _)), ?_⟩
        intro a ha b hb r hr s hs
        rw [(lineSpan_of_mem_heldHeader ha).1] at hr
        have hstart := spanIn_pendingSpans cap next rest (by omega) hopen hb hs
        exact (hspan r hr).2.2.trans hstart.1

theorem bodyStart_headerLoop (pos : ℕ) (rest : List UInt8) (lines : HeaderLines) {start : ℕ}
    (h : (headerLoop n pos rest lines).2 = some start) :
    start = pos + linesLen (sectionLines rest) + 2 := by
  induction n generalizing pos rest lines with
  | zero => cases h
  | succ n ih =>
    rw [headerLoop] at h
    split_ifs at h with hempty
    cases hk : findCrlf rest with
    | none =>
      rw [hk] at h
      cases h
    | some k =>
      rw [hk] at h
      dsimp only at h
      have hlength := length_le_of_findInfix hk
      split_ifs at h with hzero
      · have hnil : sectionLines rest = [] := by
          rw [sectionLines]
          split
          · rename_i hnone
            rw [hk] at hnone
            cases hnone
          · rename_i j hj
            rw [hk] at hj
            rw [if_pos (by rw [← Option.some.inj hj]; exact hzero)]
        rw [hnil, ← Option.some.inj h]
        rfl
      · rw [ih _ _ _ h, sectionLines_of_some hk hzero]
        simp only [linesLen, map_cons, sum_cons]
        rw [length_take_of_le (by omega)]
        omega

/-! ## Reading a range again -/

/-- The text of a header line with the continuation lines directly behind it. -/
def groupText (cap : ℕ) : List (List UInt8) → Option (List Char)
  | [] => none
  | line :: rest => (Utf8.decode line).map (fun text =>
      ((rest.takeWhile isFolded).filterMap Utf8.decode).foldl (unfoldInto cap) text)

/-- Some bytes alone, read as one header line with its own continuation lines. -/
def rereadSpan (cap : ℕ) (bytes : List UInt8) : Option SipHeader :=
  (groupText cap (sectionLines bytes)).bind parseHeaderLine

theorem groupText_concat_folded {line : List UInt8} (h : groupText cap seen = some text)
    (hall : ∀ l ∈ seen.tail, isFolded l = true) (hfold : isFolded line = true) :
    groupText cap (seen ++ [line]) = some ((Utf8.decode line).elim text (unfoldInto cap text)) := by
  cases seen with
  | nil => cases h
  | cons first seen =>
    have htake : seen.takeWhile isFolded = seen := takeWhile_eq_self_iff.mpr hall
    rw [groupText, htake] at h
    rw [cons_append, groupText, takeWhile_append, htake, if_pos rfl,
      takeWhile_cons_of_pos hfold, takeWhile_nil]
    obtain ⟨opening, hopening, rfl⟩ := Option.map_eq_some_iff.mp h
    rw [hopening, Option.map_some, filterMap_append, foldl_append]
    cases hdecode : Utf8.decode line with
    | none => rw [filterMap_cons_none hdecode]; rfl
    | some next => rw [filterMap_cons_some hdecode]; rfl

theorem groupText_concat_foreign {line : List UInt8} (h : groupText cap seen = some text)
    (hforeign : ∃ l ∈ seen.tail ++ [line], isFolded l = false) :
    groupText cap (seen ++ [line]) = some text := by
  cases seen with
  | nil => cases h
  | cons first seen =>
    rw [groupText] at h
    rw [cons_append, groupText, ← h, takeWhile_append]
    split_ifs with hlength
    · have hself : seen.takeWhile isFolded = seen :=
        ( takeWhile_prefix _).eq_of_length hlength
      obtain ⟨l, hmem, hl⟩ := hforeign
      have hline : isFolded line = false := by
        rcases mem_append.mp hmem with hseen | hlast
        · rw [takeWhile_eq_self_iff.mp hself l hseen] at hl
          cases hl
        · rwa [← mem_singleton.mp hlast]
      rw [takeWhile_cons_of_neg (by rw [hline]; exact Bool.false_ne_true), append_nil, hself]
    · rfl

/-- What the bytes from a header's first line on say of the pending text: `own` is the text of the
range read alone, and the header is detached once something else stands in between. -/
structure HeldSpan (cap : ℕ) (data : List UInt8) (span : ℕ × ℕ) (pos : ℕ) (text own : List Char)
    (detached : Bool) (seen : List (List UInt8)) : Prop where
  opened : seen ≠ []
  lines : sectionLines (data.drop span.1) = seen ++ sectionLines (data.drop pos)
  place : pos = span.1 + linesLen seen
  reread : groupText cap (sectionLines (slice data span)) = some own
  attached : detached = false →
    groupText cap seen = some text ∧ own = text ∧ ∀ l ∈ seen.tail, isFolded l = true
  foreign : detached = true →
    2 ^ 32 ≤ pos ∨ groupText cap seen = some own ∧ ∃ l ∈ seen.tail, isFolded l = false

namespace HeldSpan

variable {cap : ℕ} {data : List UInt8} {span : ℕ × ℕ} {pos : ℕ} {text own next : List Char}
  {detached : Bool} {seen rest : List (List UInt8)} {line : List UInt8}

section

variable (h : HeldSpan cap data span pos text own detached seen)
include h

theorem lines_concat (hline : sectionLines (data.drop pos) = line :: rest) :
    sectionLines (data.drop span.1) =
      (seen ++ [line]) ++ sectionLines (data.drop (pos + line.length + 2)) := by
  rw [h.lines, hline, add_assoc, ← drop_drop, sectionLines_drop hline]
  simp

theorem place_concat (line : List UInt8) :
    pos + line.length + 2 = span.1 + linesLen (seen ++ [line]) := by
  rw [linesLen_concat, h.place]
  omega

theorem mem_tail_concat {l : List UInt8} :
    l ∈ (seen ++ [line]).tail ↔ l ∈ seen.tail ∨ l = line := by
  rw [tail_append_of_ne_nil h.opened, mem_append, mem_singleton]

theorem sectionLines_slice (hline : sectionLines (data.drop pos) = line :: rest) :
    sectionLines (slice data (span.1, pos + line.length)) = seen ++ [line] := by
  have hlines := h.lines
  rw [hline] at hlines
  have hcut : pos + line.length - span.1 = linesLen seen + line.length := by
    rw [h.place]
    omega
  rw [slice, drop_take, hcut]
  exact sectionLines_take hlines

theorem foreign_concat (line : List UInt8) (hd : detached = true) :
    2 ^ 32 ≤ pos + line.length + 2 ∨
      groupText cap (seen ++ [line]) = some own ∧ ∃ l ∈ (seen ++ [line]).tail, isFolded l = false := by
  rcases h.foreign hd with hle | ⟨hgroup, l, hmem, hl⟩
  · exact Or.inl (by omega)
  · exact Or.inr ⟨groupText_concat_foreign hgroup ⟨l, mem_append_left _ hmem, hl⟩, l,
      h.mem_tail_concat.mpr (Or.inl hmem), hl⟩

theorem attached_concat (hfold : isFolded line = true) (hd : detached = false) :
    groupText cap (seen ++ [line]) = some ((Utf8.decode line).elim text (unfoldInto cap text)) ∧
      ∀ l ∈ (seen ++ [line]).tail, isFolded l = true := by
  obtain ⟨hgroup, -, hall⟩ := h.attached hd
  refine ⟨groupText_concat_folded hgroup hall hfold, ?_⟩
  intro l hl
  rcases h.mem_tail_concat.mp hl with hseen | rfl
  · exact hall l hseen
  · exact hfold

variable (hline : sectionLines (data.drop pos) = line :: rest)
include hline

theorem skip (hfold : isFolded line = true)
    (hskip : (Utf8.decode line).elim text (unfoldInto cap text) = text) :
    HeldSpan cap data span (pos + line.length + 2) text own detached (seen ++ [line]) where
  opened := by simp
  lines := h.lines_concat hline
  place := h.place_concat line
  reread := h.reread
  attached hd := by
    obtain ⟨hgroup, hall⟩ := h.attached_concat hfold hd
    exact ⟨by rw [hgroup, hskip], (h.attached hd).2.1, hall⟩
  foreign hd := h.foreign_concat line hd

theorem detach (hfold : isFolded line = false) :
    HeldSpan cap data span (pos + line.length + 2) text own true (seen ++ [line]) where
  opened := by simp
  lines := h.lines_concat hline
  place := h.place_concat line
  reread := h.reread
  attached hd := by cases hd
  foreign _ := by
    cases detached with
    | true => exact h.foreign_concat line rfl
    | false =>
      obtain ⟨hgroup, rfl, -⟩ := h.attached rfl
      exact Or.inr ⟨groupText_concat_foreign hgroup ⟨line, by simp, hfold⟩, line,
        h.mem_tail_concat.mpr (Or.inr rfl), hfold⟩

theorem stretch (hdecode : Utf8.decode line = some next) (hfold : isFolded line = true)
    (hstop : pos + line.length < 2 ^ 32) :
    HeldSpan cap data (span.1, pos + line.length) (pos + line.length + 2) (unfoldInto cap text next)
      (if detached then own else unfoldInto cap text next) detached (seen ++ [line]) where
  opened := by simp
  lines := h.lines_concat hline
  place := h.place_concat line
  reread := by
    rw [h.sectionLines_slice hline]
    cases detached with
    | true =>
      rcases h.foreign rfl with hle | ⟨hgroup, l, hmem, hl⟩
      · omega
      · exact groupText_concat_foreign hgroup ⟨l, mem_append_left _ hmem, hl⟩
    | false =>
      rw [(h.attached_concat hfold rfl).1, hdecode]
      rfl
  attached hd := by
    obtain ⟨hgroup, hall⟩ := h.attached_concat hfold hd
    rw [hdecode] at hgroup
    exact ⟨hgroup, by rw [hd]; rfl, hall⟩
  foreign hd := by
    rw [hd, if_pos rfl]
    exact h.foreign_concat line hd

theorem overrun (hstop : 2 ^ 32 ≤ pos + line.length) :
    HeldSpan cap data span (pos + line.length + 2) next own true (seen ++ [line]) where
  opened := by simp
  lines := h.lines_concat hline
  place := h.place_concat line
  reread := h.reread
  attached hd := by cases hd
  foreign _ := Or.inl (by omega)

end

theorem of_line (hline : sectionLines (data.drop pos) = line :: rest)
    (hdecode : Utf8.decode line = some next) :
    HeldSpan cap data (pos, pos + line.length) (pos + line.length + 2) next next false [line] where
  opened := by simp
  lines := by rw [hline, add_assoc, ← drop_drop, sectionLines_drop hline]; rfl
  place := by simp [linesLen]; omega
  reread := by
    have htake := sectionLines_take (show sectionLines (data.drop pos) = [] ++ line :: rest from hline)
    rw [slice, drop_take, Nat.add_sub_cancel_left]
    rw [show linesLen [] + line.length = line.length from Nat.zero_add _] at htake
    rw [htake]
    show (Utf8.decode line).map _ = some next
    rw [hdecode]
    rfl
  attached _ := by
    refine ⟨?_, rfl, fun l hl => by cases hl⟩
    show (Utf8.decode line).map _ = some next
    rw [hdecode]
    rfl
  foreign hd := by cases hd

end HeldSpan

/-- The range with a continuation line, if the line is put to the header. -/
def continuedSpan (cap : ℕ) (text next : List Char) (stop : ℕ) (span : ℕ × ℕ) : ℕ × ℕ :=
  if textLen text + textLen next < cap then stretchTo stop span else span

section Continued

variable {cap : ℕ} {data line : List UInt8} {text next own : List Char} {pos : ℕ}
  {rest seen : List (List UInt8)} {detached : Bool}

theorem pendingSpans_continued {span : Option (ℕ × ℕ)} (hdecode : Utf8.decode line = some next)
    (hcont : HeaderLines.isContinuation next = true) :
    pendingSpans cap text span pos (line :: rest) =
      pendingSpans cap (unfoldInto cap text next)
        (span.map (continuedSpan cap text next (pos + line.length))) (pos + line.length + 2) rest := by
  rw [pendingSpans, hdecode]
  dsimp only
  rw [if_pos hcont, unfoldInto]
  by_cases hcap : textLen text + textLen next < cap
  · have hspan : continuedSpan cap text next (pos + line.length) = stretchTo (pos + line.length) := by
      funext r
      rw [continuedSpan, if_pos hcap]
    rw [if_pos hcap, if_pos hcap, hspan]
  · have hspan : continuedSpan cap text next (pos + line.length) = id := by
      funext r
      rw [continuedSpan, if_neg hcap]
      rfl
    rw [if_neg hcap, if_neg hcap, hspan, Option.map_id]
    rfl

theorem HeldSpan.continued {r : ℕ × ℕ} (h : HeldSpan cap data r pos text own detached seen)
    (hline : sectionLines (data.drop pos) = line :: rest) (hdecode : Utf8.decode line = some next)
    (hcont : HeaderLines.isContinuation next = true) :
    HeldSpan cap data (continuedSpan cap text next (pos + line.length) r) (pos + line.length + 2)
      (unfoldInto cap text next)
      (if detached || decide (2 ^ 32 ≤ pos + line.length) then own else unfoldInto cap text next)
      (detached || decide (2 ^ 32 ≤ pos + line.length)) (seen ++ [line]) := by
  rw [isContinuation_eq hdecode] at hcont
  by_cases hstop : 2 ^ 32 ≤ pos + line.length
  · have hspan : continuedSpan cap text next (pos + line.length) r = r := by
      rw [continuedSpan, stretchTo, if_neg (Nat.not_lt.mpr hstop)]
      split_ifs <;> rfl
    rw [hspan, decide_eq_true hstop, Bool.or_true, if_pos rfl]
    exact h.overrun hline hstop
  · rw [decide_eq_false hstop, Bool.or_false, continuedSpan]
    split_ifs with hcap hd hd
    · rw [stretchTo, if_pos (by omega)]
      have hstretch := h.stretch hline hdecode hcont (Nat.lt_of_not_le hstop)
      rwa [if_pos hd] at hstretch
    · rw [stretchTo, if_pos (by omega)]
      have hstretch := h.stretch hline hdecode hcont (Nat.lt_of_not_le hstop)
      rwa [if_neg hd] at hstretch
    · have hsame : unfoldInto cap text next = text := if_neg hcap
      rw [hsame]
      exact h.skip hline hcont (by rw [hdecode]; exact hsame)
    · have hsame : unfoldInto cap text next = text := if_neg hcap
      rw [hsame]
      have hown : own = text := (h.attached (by simpa using hd)).2.1
      rw [hown] at h
      exact h.skip hline hcont (by rw [hdecode]; exact hsame)

end Continued

def RereadAlike (cap : ℕ) (data : List UInt8) (headers : List SpannedHeader) : Prop :=
  ∀ h ∈ headers, ∀ r, h.lineSpan = some r → rereadSpan cap (slice data r) = some h.toSipHeader

/-- The first header made is the pending one, with at least its text, and its range is still read
as the same. -/
theorem exists_detached_header {lines : List (List UInt8)}
    (h : HeldSpan cap data r pos text own true seen)
    (hlines : sectionLines (data.drop pos) = lines) :
    ∃ last stretched later, pendingSpans cap text (some r) pos lines =
        heldHeader last (some stretched) ++ later ∧
      headersWeight (parseHeaderLine text).toList ≤ headersWeight (parseHeaderLine last).toList ∧
      rereadSpan cap (slice data stretched) = parseHeaderLine own := by
  have hreread {r : ℕ × ℕ} {pos : ℕ} {text : List Char} {seen : List (List UInt8)}
      (h : HeldSpan cap data r pos text own true seen) :
      rereadSpan cap (slice data r) = parseHeaderLine own := by
    rw [rereadSpan, h.reread]
    rfl
  induction lines generalizing text r pos seen with
  | nil => exact ⟨text, r, [], (append_nil _).symm, Nat.le_refl _, hreread h⟩
  | cons line rest ih =>
    have hrest : sectionLines (data.drop (pos + line.length + 2)) = rest := by
      rw [add_assoc, ← drop_drop]
      exact sectionLines_drop hlines
    cases hdecode : Utf8.decode line with
    | none =>
      rw [pendingSpans, hdecode]
      cases hfold : isFolded line with
      | true => exact ih (h.skip hlines hfold (by rw [hdecode]; rfl)) hrest
      | false => exact ih (h.detach hlines hfold) hrest
    | some next =>
      by_cases hcont : HeaderLines.isContinuation next = true
      · have hnext := h.continued hlines hdecode hcont
        rw [Bool.true_or, if_pos rfl] at hnext
        obtain ⟨last, stretched, later, hlist, hweight, hread⟩ := ih hnext hrest
        rw [pendingSpans_continued hdecode hcont]
        exact ⟨last, stretched, later, hlist,
          (headersWeight_unfoldInto cap text next).trans hweight, hread⟩
      · rw [pendingSpans, hdecode]
        dsimp only
        rw [if_neg hcont]
        exact ⟨text, r, _, rfl, Nat.le_refl _, hreread h⟩

theorem headersWeight_le_of_rereadAlike {lines : List (List UInt8)}
    (h : HeldSpan cap data r pos text own true seen)
    (hlines : sectionLines (data.drop pos) = lines) (hroom : 0 < room)
    (halike : RereadAlike cap data ((pendingSpans cap text (some r) pos lines).take room)) :
    headersWeight (parseHeaderLine text).toList ≤ headersWeight (parseHeaderLine own).toList := by
  obtain ⟨last, stretched, later, hlist, hweight, hread⟩ := exists_detached_header h hlines
  refine hweight.trans ?_
  cases hparse : parseHeaderLine last with
  | none => exact Nat.zero_le _
  | some hdr =>
    rw [hlist, heldHeader, hparse, Option.map_some, Option.toList_some, singleton_append,
      ← Nat.succ_pred_eq_of_pos hroom, take_succ_cons] at halike
    have hhead := halike _ mem_cons_self stretched rfl
    rw [hread] at hhead
    rw [hhead]

/-- Every continuation line that stands behind another line than its header's, or ends beyond 32
bits, leaves the header it is put to as it was: `held` says of the pending line whether it has a
range, and whether something stands in between. -/
def SpansFaithful (cap : ℕ) : ℕ → List Char → Option Bool → ℕ → List (List UInt8) → Prop
  | _, _, _, _, [] => True
  | room, text, held, pos, line :: rest =>
    let stop := pos + line.length
    match Utf8.decode line with
    | none => SpansFaithful cap room text (held.map (· || !isFolded line)) (stop + 2) rest
    | some next =>
      if HeaderLines.isContinuation next then
        (held.map (· || decide (2 ^ 32 ≤ stop)) = some true → 0 < room →
            parseHeaderLine (unfoldInto cap text next) = parseHeaderLine text) ∧
          SpansFaithful cap room (unfoldInto cap text next)
            (held.map (· || decide (2 ^ 32 ≤ stop))) (stop + 2) rest
      else
        if cap ≤ textLen next then
          SpansFaithful cap (room - (parseHeaderLine text).toList.length) [] none (stop + 2) rest
        else
          SpansFaithful cap (room - (parseHeaderLine text).toList.length) next
            (if stop < 2 ^ 32 then some false else none) (stop + 2) rest

/-- The pending line has no range, or one that is read as the header, if that is to be stored. -/
def SpanTracks (cap : ℕ) (data : List UInt8) (room pos : ℕ) (text : List Char) :
    Option (ℕ × ℕ) → Option Bool → Prop
  | none, none => True
  | some r, some detached => ∃ own seen, HeldSpan cap data r pos text own detached seen ∧
      (0 < room → parseHeaderLine own = parseHeaderLine text)
  | _, _ => False

theorem spanTracks_none (cap : ℕ) (data : List UInt8) (room pos : ℕ) (text : List Char) :
    SpanTracks cap data room pos text none none := trivial

theorem SpanTracks.eq_or (h : SpanTracks cap data room pos text span held) :
    span = none ∧ held = none ∨ ∃ r detached own seen, span = some r ∧ held = some detached ∧
      HeldSpan cap data r pos text own detached seen ∧
      (0 < room → parseHeaderLine own = parseHeaderLine text) := by
  cases span <;> cases held
  case none.none => exact .inl ⟨rfl, rfl⟩
  case some.some r detached =>
    obtain ⟨own, seen, hheld, hown⟩ := h
    exact .inr ⟨r, detached, own, seen, rfl, rfl, hheld, hown⟩
  all_goals cases h

theorem HeldSpan.tracks {detached : Bool} (h : HeldSpan cap data r pos text own detached seen)
    (hown : 0 < room → parseHeaderLine own = parseHeaderLine text) :
    SpanTracks cap data room pos text (some r) (some detached) :=
  ⟨own, seen, h, hown⟩

theorem rereadAlike_append {a b : List SpannedHeader} :
    RereadAlike cap data (a ++ b) ↔ RereadAlike cap data a ∧ RereadAlike cap data b := by
  simp only [RereadAlike, mem_append, or_imp, forall_and]

theorem SpanTracks.rereadAlike (h : SpanTracks cap data room pos text span held) :
    RereadAlike cap data ((heldHeader text span).take room) := by
  intro hdr hmem r hr
  have hroom : 0 < room := by
    rcases Nat.eq_zero_or_pos room with rfl | hpos
    · cases hmem
    · exact hpos
  obtain ⟨hspan, hparse⟩ := lineSpan_of_mem_heldHeader (mem_of_mem_take hmem)
  rw [hr] at hspan
  subst hspan
  cases held with
  | none => cases h
  | some detached =>
    obtain ⟨own, seen, hheld, hown⟩ := h
    rw [rereadSpan, hheld.reread, Option.bind_some, hown hroom, hparse]

theorem rereadAlike_iff {lines : List (List UInt8)}
    (htracks : SpanTracks cap data room pos text span held)
    (hlines : sectionLines (data.drop pos) = lines) :
    RereadAlike cap data ((pendingSpans cap text span pos lines).take room) ↔
      SpansFaithful cap room text held pos lines := by
  induction lines generalizing room pos text span held with
  | nil => exact iff_of_true htracks.rereadAlike trivial
  | cons line rest ih =>
    have hrest : sectionLines (data.drop (pos + line.length + 2)) = rest := by
      rw [add_assoc, ← drop_drop]
      exact sectionLines_drop hlines
    rw [SpansFaithful]
    cases hdecode : Utf8.decode line with
    | none =>
      rw [pendingSpans, hdecode]
      refine ih ?_ hrest
      rcases htracks.eq_or with ⟨rfl, rfl⟩ | ⟨r, detached, own, seen, rfl, rfl, hheld, hown⟩
      · trivial
      · refine ⟨own, seen ++ [line], ?_, hown⟩
        cases hfold : isFolded line with
        | true =>
          show HeldSpan cap data r _ text own (detached || !true) _
          rw [Bool.not_true, Bool.or_false]
          exact hheld.skip hlines hfold (by rw [hdecode]; rfl)
        | false =>
          show HeldSpan cap data r _ text own (detached || !false) _
          rw [Bool.not_false, Bool.or_true]
          exact hheld.detach hlines hfold
    | some next =>
      dsimp only
      by_cases hcont : HeaderLines.isContinuation next = true
      · rw [if_pos hcont, pendingSpans_continued hdecode hcont]
        rcases htracks.eq_or with ⟨rfl, rfl⟩ | ⟨r, detached, own, seen, rfl, rfl, hheld, hown⟩
        · rw [Option.map_none, ih (spanTracks_none _ _ _ _ _) hrest]
          simp
        · have hnext := hheld.continued hlines hdecode hcont
          rw [Option.map_some, Option.map_some]
          cases hd : (detached || decide (2 ^ 32 ≤ pos + line.length)) with
          | false =>
            rw [hd, if_neg Bool.false_ne_true] at hnext
            rw [ih (hnext.tracks (fun _ => rfl)) hrest]
            simp
          | true =>
            rw [hd, if_pos rfl] at hnext
            constructor
            · intro halike
              have hsame (hroom : 0 < room) :
                  parseHeaderLine (unfoldInto cap text next) = parseHeaderLine text := by
                have hle := headersWeight_le_of_rereadAlike hnext hrest hroom halike
                rw [hown hroom] at hle
                exact (parseHeaderLine_unfoldInto cap text next).resolve_right (Nat.not_lt.mpr hle)
              refine ⟨fun _ => hsame, (ih (hnext.tracks (fun hroom => ?_)) hrest).mp halike⟩
              rw [hown hroom, hsame hroom]
            · rintro ⟨hsame, hfaithful⟩
              refine (ih (hnext.tracks (fun hroom => ?_)) hrest).mpr hfaithful
              rw [hown hroom, hsame rfl hroom]
      · have hlength : (heldHeader text span).length = (parseHeaderLine text).toList.length := by
          rw [heldHeader]
          cases parseHeaderLine text <;> rfl
        rw [if_neg hcont, pendingSpans, hdecode]
        dsimp only
        rw [if_neg hcont, take_append, rereadAlike_append, hlength,
          and_iff_right htracks.rereadAlike]
        split_ifs with hlong hstop
        · exact ih (spanTracks_none _ _ _ _ _) hrest
        · have hne : 0 < line.length := by
            rcases sectionLines_cons hlines with ⟨-, rfl, hne, -⟩ | ⟨-, hne, -, -⟩ <;>
              exact length_pos_iff.mpr hne
          have hspan : spanOf pos (pos + line.length) = some (pos, pos + line.length) :=
            if_pos ⟨by omega, hstop, by omega⟩
          rw [hspan]
          exact ih ((HeldSpan.of_line hlines hdecode).tracks (fun _ => rfl)) hrest
        · have hspan : spanOf pos (pos + line.length) = none := if_neg (fun h => hstop h.2.1)
          rw [hspan]
          exact ih (spanTracks_none _ _ _ _ _) hrest

/-! ## The ranges of a message -/

/-- Every range is read again as its header, the ranges are disjoint and increasing, and none
reaches into the body. -/
structure SpansExact (limits : ParserLimits) (data : List UInt8) (start : ℕ) : Prop where
  alike : RereadAlike limits.maxHeaderLine data (spannedHeaders limits data start)
  ordered : (spannedHeaders limits data start).Pairwise SpannedHeader.Before
  inside : ∀ h ∈ spannedHeaders limits data start, ∀ r, h.lineSpan = some r → r.1 < r.2 ∧
    ∀ body, (parseHeadersAndBody limits data start).2.1 = some body → r.2 ≤ body.1

theorem pairwise_spannedHeaders (data : List UInt8) (start : ℕ) :
    (spannedHeaders limits data start).Pairwise SpannedHeader.Before := by
  rw [spannedHeaders_eq]
  exact (pairwise_pendingSpans _ [] _ (spanIn_none _ _)).sublist (take_sublist _ _)

theorem spannedHeaders_inside (data : List UInt8) (start : ℕ)
    (hmem : h ∈ spannedHeaders limits data start) (hr : h.lineSpan = some r) :
    r.1 < r.2 ∧ ∀ body, (parseHeadersAndBody limits data start).2.1 = some body → r.2 ≤ body.1 := by
  rw [spannedHeaders_eq] at hmem
  obtain ⟨-, hne, hhi⟩ := spanIn_pendingSpans _ [] _ (Nat.le_refl start) (spanIn_none _ _)
    (mem_of_mem_take hmem) hr
  refine ⟨hne, ?_⟩
  intro body hbody
  have hstart := bodyStart_headerLoop _ _ _ _ (parseHeadersAndBody_body hbody)
  omega

/-- The ranges of a message's headers are exact exactly where no continuation line behind another
line, or beyond 32 bits, changes the header it is put to. -/
theorem line_spans_exact_iff {limits : ParserLimits} {data : List UInt8} {captured : Captured}
    {msg : ParsedMessage} {firstCrlf : ℕ} (h : parseSipBytes limits data captured = .ok msg)
    (hfirst : findCrlf data = some firstCrlf) :
    msg.headers = (spannedHeaders limits data (firstCrlf + 2)).map SpannedHeader.toSipHeader ∧
      (SpansExact limits data (firstCrlf + 2) ↔
        SpansFaithful limits.maxHeaderLine limits.maxHeaders [] none (firstCrlf + 2)
          (sectionLines (data.drop (firstCrlf + 2)))) := by
  constructor
  · obtain ⟨k, hk, hheaders, -⟩ := parseSipBytes_cases h
    rw [hfirst] at hk
    obtain rfl := Option.some.inj hk
    rw [hheaders, map_spannedHeaders, parseHeadersAndBody_headers]
  · rw [← rereadAlike_iff (spanTracks_none _ data _ _ _) rfl, ← spannedHeaders_eq]
    constructor
    · exact fun hexact => hexact.alike
    · exact fun halike => ⟨halike, pairwise_spannedHeaders limits data _,
        fun hdr hmem r hr => spannedHeaders_inside limits data _ hmem hr⟩

instance decidableSpansFaithful (cap : ℕ) : ∀ room text held pos lines,
    Decidable (SpansFaithful cap room text held pos lines)
  | _, _, _, _, [] => isTrue trivial
  | room, text, held, pos, line :: rest =>
    have (room : ℕ) (text : List Char) (held : Option Bool) (pos : ℕ) :
        Decidable (SpansFaithful cap room text held pos rest) :=
      decidableSpansFaithful cap room text held pos rest
    match hdecode : Utf8.decode line with
    | none => decidable_of_iff (SpansFaithful cap room text (held.map (· || !isFolded line))
        (pos + line.length + 2) rest) (by rw [SpansFaithful, hdecode])
    | some next => decidable_of_iff (if HeaderLines.isContinuation next then _ else _)
        (by rw [SpansFaithful, hdecode])

theorem line_spans_exact_iff_foldedSubject :
    ∃ msg, parseSipBytes {} foldedSubject anyCaptured = .ok msg ∧ SpansExact {} foldedSubject 19 := by
  have hparse : parseSipBytes {} foldedSubject anyCaptured = .ok _ := rfl
  have hfirst : findCrlf foldedSubject = some 17 := by decide +kernel
  exact ⟨_, hparse, (line_spans_exact_iff hparse hfirst).2.mpr (by decide +kernel)⟩

/-- A range over a line that is no text is read without the continuation line behind it. -/
theorem not_exact_foreign_between :
    ∃ msg, parseSipBytes {} foreignBetween anyCaptured = .ok msg ∧
      ⟨⟨"To", "b y"⟩, some (23, 38)⟩ ∈ spannedHeaders {} foreignBetween 23 ∧
      rereadSpan 8192 (slice foreignBetween (23, 38)) = some ⟨"To", "b"⟩ ∧
      ¬ SpansExact {} foreignBetween 23 := by
  have hmem : ⟨⟨"To", "b y"⟩, some (23, 38)⟩ ∈ spannedHeaders {} foreignBetween 23 := by
    decide +kernel
  have hreread : rereadSpan 8192 (slice foreignBetween (23, 38)) = some ⟨"To", "b"⟩ := by
    decide +kernel
  refine ⟨_, rfl, hmem, hreread, ?_⟩
  intro hexact
  have halike := hexact.alike _ hmem (23, 38) rfl
  rw [show ({ } : ParserLimits).maxHeaderLine = 8192 from rfl, hreread] at halike
  exact absurd halike (by decide)

end Sipnab
