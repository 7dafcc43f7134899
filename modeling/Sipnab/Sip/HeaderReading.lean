import Sipnab.Sip.HeaderLoop

/-!
# Header lines and their continuation lines

The reading of a header section by groups, a header line with the continuation lines directly behind
it, beside the parser's, which keeps one pending text. The parser drops a header line that is no
text, too long or without a name, but not the continuation lines behind it.
-/

namespace Sipnab

open Text List

/-! ## The reading by groups -/

def isFolded (line : List UInt8) : Bool := line.head? == some 32 || line.head? == some 9

/-- Each line that is no continuation, with the continuation lines directly behind it. -/
def headerGroups : List (List UInt8) → List (List UInt8 × List (List UInt8))
  | [] => []
  | line :: rest =>
    if isFolded line then headerGroups rest
    else (line, rest.takeWhile isFolded) :: headerGroups rest

def unfoldInto (cap : ℕ) (text cont : List Char) : List Char :=
  if textLen text + textLen cont < cap then text ++ ' ' :: trimStart cont else text

/-- The text of a header line, unless the line is no text, over the cap or no header. -/
def openingText (cap : ℕ) (line : List UInt8) : Option (List Char) :=
  (Utf8.decode line).filter (fun text => decide (textLen text < cap) && (parseHeaderLine text).isSome)

def readGroup (cap : ℕ) (group : List UInt8 × List (List UInt8)) : Option SipHeader :=
  (openingText cap group.1).bind (fun text =>
    parseHeaderLine ((group.2.filterMap Utf8.decode).foldl (unfoldInto cap) text))

def groupedHeaders (limits : ParserLimits) (bytes : List UInt8) : List SipHeader :=
  ((headerGroups (sectionLines bytes)).filterMap (readGroup limits.maxHeaderLine)).take
    limits.maxHeaders

/-! ## Both readings, line by line -/

def pendingHeaders (cap : ℕ) : List Char → List (List UInt8) → List SipHeader
  | text, [] => (parseHeaderLine text).toList
  | text, line :: rest =>
    match Utf8.decode line with
    | none => pendingHeaders cap text rest
    | some next =>
      if HeaderLines.isContinuation next then pendingHeaders cap (unfoldInto cap text next) rest
      else (parseHeaderLine text).toList ++
        pendingHeaders cap (if cap ≤ textLen next then [] else next) rest

/-- The headers by groups, from the text of the current group on, if that group is kept. -/
def openHeaders (cap : ℕ) : Option (List Char) → List (List UInt8) → List SipHeader
  | group, [] => (group.bind parseHeaderLine).toList
  | group, line :: rest =>
    if isFolded line then
      openHeaders cap (group.map (fun text => (Utf8.decode line).elim text (unfoldInto cap text))) rest
    else (group.bind parseHeaderLine).toList ++ openHeaders cap (openingText cap line) rest

variable (cap : ℕ) (text : List Char) (lines : List (List UInt8))

theorem openHeaders_some :
    openHeaders cap (some text) lines =
      (parseHeaderLine (((lines.takeWhile isFolded).filterMap Utf8.decode).foldl (unfoldInto cap)
        text)).toList ++ openHeaders cap none (lines.dropWhile isFolded) := by
  induction lines generalizing text with
  | nil => simp [openHeaders]
  | cons line rest ih =>
    rw [openHeaders]
    by_cases hfold : isFolded line = true
    · rw [if_pos hfold, takeWhile_cons_of_pos hfold, dropWhile_cons_of_pos hfold,
        Option.map_some, ih]
      cases hdecode : Utf8.decode line with
      | none => rw [filterMap_cons_none hdecode]; rfl
      | some next => rw [filterMap_cons_some hdecode]; rfl
    · rw [if_neg hfold, takeWhile_cons_of_neg hfold, dropWhile_cons_of_neg hfold,
        openHeaders, if_neg hfold]
      rfl

theorem headerGroups_dropWhile : headerGroups (lines.dropWhile isFolded) = headerGroups lines := by
  induction lines with
  | nil => rfl
  | cons line rest ih =>
    by_cases hfold : isFolded line = true
    · rw [dropWhile_cons_of_pos hfold, ih, headerGroups, if_pos hfold]
    · rw [dropWhile_cons_of_neg hfold]

theorem openHeaders_none :
    openHeaders cap none lines = (headerGroups lines).filterMap (readGroup cap) := by
  induction hlength : lines.length using Nat.strongRecOn generalizing lines with
  | ind length ih =>
    cases lines with
    | nil => rfl
    | cons line rest =>
      have hrest := ih rest.length (by rw [← hlength]; simp) rest rfl
      rw [openHeaders, headerGroups]
      by_cases hfold : isFolded line = true
      · rw [if_pos hfold, if_pos hfold]
        exact hrest
      · rw [if_neg hfold, if_neg hfold, filterMap_cons]
        cases hopen : openingText cap line with
        | none =>
          simp only [readGroup, hopen, Option.bind_none]
          exact hrest
        | some text =>
          have hdrop := ih (rest.dropWhile isFolded).length (by
            have := (dropWhile_suffix isFolded (l := rest)).length_le
            rw [← hlength, length_cons]
            omega) (rest.dropWhile isFolded) rfl
          rw [openHeaders_some, hdrop, headerGroups_dropWhile]
          simp only [readGroup, hopen, Option.bind_some, Option.bind_none, Option.toList_none,
            nil_append]
          cases parseHeaderLine _ <;> rfl

/-! ## Where they agree -/

theorem isContinuation_eq {line : List UInt8} {text : List Char}
    (h : Utf8.decode line = some text) : HeaderLines.isContinuation text = isFolded line := by
  cases line with
  | nil =>
    cases h
    rfl
  | cons b rest =>
    obtain ⟨c, cs, rfl, hc⟩ := Utf8.head?_decode h
    have hspace : c = ' ' ↔ b = 32 := by
      rcases hc with ⟨-, rfl⟩ | ⟨hb, hc⟩
      · rw [← UInt8.toNat_inj, ← Utf8.toNat_ofByte, ← Char.toNat_inj]
        rfl
      · constructor
        · rintro rfl
          exact absurd hc (by decide)
        · rintro rfl
          exact absurd hb (by decide)
    have htab : c = '\t' ↔ b = 9 := by
      rcases hc with ⟨-, rfl⟩ | ⟨hb, hc⟩
      · rw [← UInt8.toNat_inj, ← Utf8.toNat_ofByte, ← Char.toNat_inj]
        rfl
      · constructor
        · rintro rfl
          exact absurd hc (by decide)
        · rintro rfl
          exact absurd hb (by decide)
    simp only [HeaderLines.isContinuation, isFolded, List.head?_cons]
    rw [Bool.eq_iff_iff]
    simp [hspace, htab]

/-- The reading by groups, from a pending text that is the current group's, or none's. -/
def heldHeaders (cap : ℕ) (text : List Char) (live : Bool) (lines : List (List UInt8)) :
    List SipHeader :=
  if live then openHeaders cap (some text) lines
  else (parseHeaderLine text).toList ++ openHeaders cap none lines

/-- No continuation line that follows no header adds anything to the header that is held there, or
makes one. -/
def AddsNothing (cap : ℕ) : List Char → Bool → List (List UInt8) → Prop
  | _, _, [] => True
  | text, live, line :: rest =>
    match Utf8.decode line with
    | none => AddsNothing cap text (live && isFolded line) rest
    | some next =>
      if HeaderLines.isContinuation next then
        (live = false → parseHeaderLine (unfoldInto cap text next) = parseHeaderLine text) ∧
          AddsNothing cap (unfoldInto cap text next) live rest
      else if cap ≤ textLen next then AddsNothing cap [] false rest
      else AddsNothing cap next (parseHeaderLine next).isSome rest

section Step

variable {cap : ℕ} {text next : List Char} {live : Bool} {line : List UInt8}
  {rest : List (List UInt8)}

theorem heldHeaders_foreign (h : Utf8.decode line = none) :
    heldHeaders cap text live (line :: rest) =
      heldHeaders cap text (live && isFolded line) rest := by
  by_cases hfold : isFolded line = true
  · cases live <;> simp [heldHeaders, openHeaders, hfold, h]
  · have hopen : openingText cap line = none := by rw [openingText, h]; rfl
    cases live <;> simp [heldHeaders, openHeaders, hfold, hopen]

section

variable (h : Utf8.decode line = some next)
include h

theorem heldHeaders_live (hcont : HeaderLines.isContinuation next = true) :
    heldHeaders cap text true (line :: rest) =
      heldHeaders cap (unfoldInto cap text next) true rest := by
  rw [isContinuation_eq h] at hcont
  simp [heldHeaders, openHeaders, hcont, h]

theorem heldHeaders_dead (hcont : HeaderLines.isContinuation next = true) :
    heldHeaders cap text false (line :: rest) =
      (parseHeaderLine text).toList ++ openHeaders cap none rest := by
  rw [isContinuation_eq h] at hcont
  simp [heldHeaders, openHeaders, hcont]

theorem heldHeaders_long (hcont : ¬ HeaderLines.isContinuation next = true)
    (hlong : cap ≤ textLen next) :
    heldHeaders cap text live (line :: rest) =
      (parseHeaderLine text).toList ++ heldHeaders cap [] false rest := by
  rw [isContinuation_eq h] at hcont
  have hopen : openingText cap line = none := by
    rw [openingText, h]
    simp [Option.filter, hlong]
  have hnone : parseHeaderLine [] = none := rfl
  cases live <;> simp [heldHeaders, openHeaders, hcont, hopen, hnone]

theorem heldHeaders_header (hcont : ¬ HeaderLines.isContinuation next = true)
    (hshort : ¬ cap ≤ textLen next) :
    heldHeaders cap text live (line :: rest) =
      (parseHeaderLine text).toList ++ heldHeaders cap next (parseHeaderLine next).isSome rest := by
  rw [isContinuation_eq h] at hcont
  cases hparse : parseHeaderLine next with
  | none =>
    have hopen : openingText cap line = none := by
      rw [openingText, h]
      simp [Option.filter, hparse]
    cases live <;> simp [heldHeaders, openHeaders, hcont, hopen, hparse]
  | some header =>
    have hopen : openingText cap line = some next := by
      rw [openingText, h]
      simp [Option.filter, hparse, Nat.lt_of_not_le hshort]
    cases live <;> simp [heldHeaders, openHeaders, hcont, hopen]

end

end Step

/-- What stands in a header's value, and the header itself. -/
def SipHeader.weight (h : SipHeader) : ℕ := h.value.toList.length + 1

def headersWeight (headers : List SipHeader) : ℕ := (headers.map SipHeader.weight).sum

theorem headersWeight_append (a b : List SipHeader) :
    headersWeight (a ++ b) = headersWeight a + headersWeight b := by
  simp [headersWeight]

theorem trim_append_longer (value ext : List Char) :
    trim (value ++ ' ' :: ext) = trim value ∨
      (trim value).length < (trim (value ++ ' ' :: ext)).length := by
  by_cases hvalue : trim value = []
  · rw [hvalue]
    by_cases hboth : trim (value ++ ' ' :: ext) = []
    · exact Or.inl hboth
    · exact Or.inr (length_pos_iff.mpr hboth)
  · rw [trim, trim, trimStart_append (trimStart_ne_nil hvalue)]
    by_cases hext : trimEnd (' ' :: ext) = []
    · exact Or.inl (trimEnd_append_blank hext _)
    · right
      rw [trimEnd_append hext, length_append]
      have hle := (trimEnd_isPrefix (trimStart value)).length_le
      have hpos := length_pos_iff.mpr hext
      omega

theorem headersWeight_some (h : SipHeader) :
    headersWeight (some h).toList = h.value.toList.length + 1 := by
  simp [headersWeight, SipHeader.weight]

theorem parseHeaderLine_unfoldInto (cont : List Char) :
    parseHeaderLine (unfoldInto cap text cont) = parseHeaderLine text ∨
      headersWeight (parseHeaderLine text).toList <
        headersWeight (parseHeaderLine (unfoldInto cap text cont)).toList := by
  rw [unfoldInto]
  split_ifs with hcap
  · cases hparse : parseHeaderLine text with
    | none =>
      cases hboth : parseHeaderLine (text ++ ' ' :: trimStart cont) with
      | none => exact Or.inl rfl
      | some h =>
        right
        rw [headersWeight_some]
        exact Nat.succ_pos _
    | some h =>
      rw [parseHeaderLine] at hparse
      split at hparse
      · cases hparse
      · rename_i name value hsplit
        dsimp only at hparse
        split_ifs at hparse with hname
        obtain rfl := Option.some.inj hparse
        rw [parseHeaderLine_append hsplit (fun h => hname (by rw [h]; rfl)), headersWeight_some,
          headersWeight_some]
        rcases trim_append_longer value (trimStart cont) with heq | hlt
        · left
          rw [heq]
        · right
          simpa using hlt
  · exact Or.inl rfl

theorem headersWeight_unfoldInto (cont : List Char) :
    headersWeight (parseHeaderLine text).toList ≤
      headersWeight (parseHeaderLine (unfoldInto cap text cont)).toList := by
  rcases parseHeaderLine_unfoldInto cap text cont with heq | hlt
  · rw [heq]
  · exact hlt.le

theorem headersWeight_heldHeaders (live : Bool) (lines : List (List UInt8)) :
    headersWeight (heldHeaders cap text live lines) ≤
      headersWeight (pendingHeaders cap text lines) := by
  induction lines generalizing text live with
  | nil => cases live <;> simp [heldHeaders, openHeaders, pendingHeaders]
  | cons line rest ih =>
    rw [pendingHeaders]
    cases hdecode : Utf8.decode line with
    | none =>
      rw [heldHeaders_foreign hdecode]
      exact ih text _
    | some next =>
      dsimp only
      split_ifs with hcont hlong
      · cases live with
        | true =>
          rw [heldHeaders_live hdecode hcont]
          exact ih _ true
        | false =>
          rw [heldHeaders_dead hdecode hcont]
          have hrest := ih (unfoldInto cap text next) false
          have hstep := headersWeight_unfoldInto cap text next
          simp only [heldHeaders, Bool.false_eq_true, if_false, headersWeight_append] at hrest ⊢
          omega
      · rw [heldHeaders_long hdecode hcont hlong, headersWeight_append, headersWeight_append]
        exact Nat.add_le_add_left (ih [] false) _
      · rw [heldHeaders_header hdecode hcont hlong, headersWeight_append, headersWeight_append]
        exact Nat.add_le_add_left (ih next _) _

theorem pendingHeaders_eq_iff (live : Bool) (lines : List (List UInt8)) :
    pendingHeaders cap text lines = heldHeaders cap text live lines ↔
      AddsNothing cap text live lines := by
  induction lines generalizing text live with
  | nil => cases live <;> simp [heldHeaders, openHeaders, pendingHeaders, AddsNothing]
  | cons line rest ih =>
    rw [pendingHeaders, AddsNothing]
    cases hdecode : Utf8.decode line with
    | none =>
      rw [heldHeaders_foreign hdecode]
      exact ih text _
    | some next =>
      dsimp only
      split_ifs with hcont hlong
      · cases live with
        | true =>
          rw [heldHeaders_live hdecode hcont, ih]
          simp
        | false =>
          rw [heldHeaders_dead hdecode hcont, ← ih]
          simp only [heldHeaders, Bool.false_eq_true, if_false, true_implies]
          constructor
          · intro heq
            -- Were the held header changed, the parser would read more than the groups hold.
            have hsame : parseHeaderLine (unfoldInto cap text next) = parseHeaderLine text := by
              have hweight := headersWeight_heldHeaders cap (unfoldInto cap text next) false rest
              rw [heq] at hweight
              simp only [heldHeaders, Bool.false_eq_true, if_false, headersWeight_append] at hweight
              exact (parseHeaderLine_unfoldInto cap text next).resolve_right (by omega)
            exact ⟨hsame, by rw [hsame]; exact heq⟩
          · rintro ⟨hsame, heq⟩
            rw [← hsame]
            exact heq
      · rw [heldHeaders_long hdecode hcont hlong, append_cancel_left_eq]
        exact ih [] false
      · rw [heldHeaders_header hdecode hcont hlong, append_cancel_left_eq]
        exact ih next _

/-! ## The parser's headers -/

theorem map_heldHeader (text : List Char) (span : Option (ℕ × ℕ)) :
    (heldHeader text span).map SpannedHeader.toSipHeader = (parseHeaderLine text).toList := by
  rw [heldHeader]
  cases parseHeaderLine text <;> rfl

theorem map_pendingSpans (span : Option (ℕ × ℕ)) (pos : ℕ) :
    (pendingSpans cap text span pos lines).map SpannedHeader.toSipHeader =
      pendingHeaders cap text lines := by
  induction lines generalizing text span pos with
  | nil => exact map_heldHeader text span
  | cons line rest ih =>
    rw [pendingSpans, pendingHeaders]
    cases Utf8.decode line with
    | none => exact ih text span _
    | some next =>
      dsimp only
      rw [unfoldInto]
      split_ifs
      · exact ih _ _ _
      · exact ih _ _ _
      · rw [map_append, map_heldHeader, ih]
      · rw [map_append, map_heldHeader, ih]

theorem headers_parseHeadersAndBody (limits : ParserLimits) (data : List UInt8) (start : ℕ) :
    (parseHeadersAndBody limits data start).1 =
      (pendingHeaders limits.maxHeaderLine [] (sectionLines (data.drop start))).take
        limits.maxHeaders := by
  rw [← map_spannedHeaders, spannedHeaders_eq, map_take, map_pendingSpans]

/-- The header list is the reading by groups exactly where no continuation line that follows no
header adds anything. -/
theorem headers_grouped_iff (maxHeaderLine : ℕ) (data : List UInt8) (start : ℕ) :
    (∀ maxHeaders, (parseHeadersAndBody ⟨maxHeaderLine, maxHeaders⟩ data start).1 =
        groupedHeaders ⟨maxHeaderLine, maxHeaders⟩ (data.drop start)) ↔
      AddsNothing maxHeaderLine [] false (sectionLines (data.drop start)) := by
  rw [← pendingHeaders_eq_iff]
  have hheld : heldHeaders maxHeaderLine [] false (sectionLines (data.drop start)) =
      (headerGroups (sectionLines (data.drop start))).filterMap (readGroup maxHeaderLine) := by
    rw [← openHeaders_none]
    rfl
  rw [hheld]
  simp only [headers_parseHeadersAndBody, groupedHeaders]
  generalize pendingHeaders maxHeaderLine [] (sectionLines (data.drop start)) = parsed
  generalize (headerGroups (sectionLines (data.drop start))).filterMap _ = grouped
  constructor
  · intro h
    have hmax := h (max parsed.length grouped.length)
    rwa [take_of_length_le (le_max_left _ _), take_of_length_le (le_max_right _ _)] at hmax
  · intro h maxHeaders
    rw [h]

/-- `OPTIONS sip:a SIP/2.0` with a continuation line first. -/
def leadingContinuation : List UInt8 :=
  "OPTIONS sip:a SIP/2.0\r\n Q: y\r\nTo: b\r\n\r\n".toUTF8.data.toList

/-- A header line that is no text between a header and a continuation line. -/
def foreignBetween : List UInt8 :=
  "OPTIONS sip:a SIP/2.0\r\nTo: b\r\n".toUTF8.data.toList ++ 0xFF ::
    ": x\r\n y\r\n\r\n".toUTF8.data.toList

/-- A header is made from a continuation line, and one is continued past another line. -/
theorem not_grouped_stray_continuation :
    (parseHeadersAndBody { } leadingContinuation 23).1 = [⟨"Q", "y"⟩, ⟨"To", "b"⟩] ∧
      groupedHeaders { } (leadingContinuation.drop 23) = [⟨"To", "b"⟩] ∧
      (parseHeadersAndBody { } foreignBetween 23).1 = [⟨"To", "b y"⟩] ∧
      groupedHeaders { } (foreignBetween.drop 23) = [⟨"To", "b"⟩] := by
  decide +kernel

end Sipnab
