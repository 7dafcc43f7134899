import Sipnab.Sip.FramingAgreement

/-!
# The parser with its ranges

The parser records with each header the range of bytes it was read from. Its loop over the bytes is
here one over the lines of the header section, with one pending text, and without the ranges its
headers are those of the parser.
-/

namespace Sipnab

open Text List

structure SpannedHeader extends SipHeader where
  lineSpan : Option (ℕ × ℕ)
  deriving DecidableEq

/-- The range, unless it is empty or an end of it does not fit 32 bits. -/
def spanOf (start stop : ℕ) : Option (ℕ × ℕ) :=
  if start < 2 ^ 32 ∧ stop < 2 ^ 32 ∧ start < stop then some (start, stop) else none

/-- A range up to a later end, unless that does not fit 32 bits. -/
def stretchTo (stop : ℕ) (span : ℕ × ℕ) : ℕ × ℕ :=
  (span.1, if stop < 2 ^ 32 then stop else span.2)

structure SpannedLines where
  headers : List SpannedHeader := []
  pending : List Char := []
  pendingSpan : Option (ℕ × ℕ) := none
  parseError : Bool := false
  limits : ParserLimits

namespace SpannedLines

def flush (lines : SpannedLines) : SpannedLines :=
  let stored := { lines with pending := [], pendingSpan := none }
  if lines.pending.isEmpty then stored
  else match parseHeaderLine lines.pending with
    | none => stored
    | some hdr =>
      if lines.headers.length < lines.limits.maxHeaders then
        { stored with headers := lines.headers ++ [{ hdr with lineSpan := lines.pendingSpan }] }
      else { stored with parseError := true }

/-- One line of header text, read from the bytes from `start` to `stop`. -/
def line (lines : SpannedLines) (text : List Char) (start stop : ℕ) : SpannedLines :=
  if HeaderLines.isContinuation text then
    if textLen lines.pending + textLen text < lines.limits.maxHeaderLine then
      { lines with
        pending := lines.pending ++ ' ' :: trimStart text
        pendingSpan := lines.pendingSpan.map (stretchTo stop) }
    else { lines with parseError := true }
  else
    let lines := lines.flush
    if lines.limits.maxHeaderLine ≤ textLen text then { lines with parseError := true }
    else { lines with pending := text, pendingSpan := spanOf start stop }

def lineBytes (lines : SpannedLines) (bytes : List UInt8) (start : ℕ) : SpannedLines :=
  match Utf8.decode bytes with
  | some text => lines.line text start (start + bytes.length)
  | none => { lines with parseError := true }

def unspanned (lines : SpannedLines) : HeaderLines where
  headers := lines.headers.map SpannedHeader.toSipHeader
  pending := lines.pending
  parseError := lines.parseError
  limits := lines.limits

variable (lines : SpannedLines)

theorem unspanned_flush : lines.flush.unspanned = lines.unspanned.flush := by
  rw [flush, HeaderLines.flush]
  by_cases hempty : lines.pending.isEmpty = true
  · rw [if_pos hempty, if_pos (show lines.unspanned.pending.isEmpty = true from hempty)]
    rfl
  · rw [if_neg hempty, if_neg (show ¬ lines.unspanned.pending.isEmpty = true from hempty)]
    show _ = (match parseHeaderLine lines.pending with | none => _ | some hdr => _)
    cases parseHeaderLine lines.pending with
    | none => rfl
    | some hdr =>
      have hlength : lines.unspanned.headers.length = lines.headers.length := length_map _
      rw [hlength, show lines.unspanned.limits = lines.limits from rfl]
      split_ifs
      · simp [unspanned]
      · rfl

theorem unspanned_line (text : List Char) (start stop : ℕ) :
    (lines.line text start stop).unspanned = lines.unspanned.line text := by
  rw [line, HeaderLines.line]
  by_cases hcont : HeaderLines.isContinuation text = true
  · rw [if_pos hcont, if_pos hcont]
    show _ = ite (textLen lines.pending + textLen text < lines.limits.maxHeaderLine) _ _
    split_ifs <;> rfl
  · rw [if_neg hcont, if_neg hcont, ← unspanned_flush]
    show _ = ite (lines.flush.limits.maxHeaderLine ≤ textLen text) _ _
    dsimp only
    split_ifs <;> rfl

theorem unspanned_lineBytes (bytes : List UInt8) (start : ℕ) :
    (lines.lineBytes bytes start).unspanned = lines.unspanned.lineBytes bytes := by
  rw [lineBytes, HeaderLines.lineBytes]
  cases Utf8.decode bytes with
  | none => rfl
  | some text => exact unspanned_line lines text _ _

end SpannedLines

def spanLoop : ℕ → ℕ → List UInt8 → SpannedLines → SpannedLines × Option ℕ
  | 0, _, _, lines => (lines, none)
  | n + 1, pos, rest, lines =>
    if rest.isEmpty then (lines, none)
    else match findCrlf rest with
      | none =>
        let lines := match Utf8.decode rest with
          | some remainder => lines.line remainder pos (pos + rest.length)
          | none => lines
        ({ lines with parseError := true }, none)
      | some crlfOffset =>
        if crlfOffset = 0 then (lines, some (pos + 2))
        else
          spanLoop n (pos + crlfOffset + 2) (rest.drop (crlfOffset + 2))
            (lines.lineBytes (rest.take crlfOffset) pos)

def spannedHeaders (limits : ParserLimits) (data : List UInt8) (start : ℕ) : List SpannedHeader :=
  (spanLoop data.length start (data.drop start) { limits }).1.flush.headers

variable (n : ℕ) (limits : ParserLimits)

theorem unspanned_spanLoop (pos : ℕ) (rest : List UInt8) (lines : SpannedLines) :
    (spanLoop n pos rest lines).1.unspanned = (headerLoop n pos rest lines.unspanned).1 := by
  induction n generalizing pos rest lines with
  | zero => rfl
  | succ n ih =>
    rw [spanLoop, headerLoop]
    by_cases hempty : rest.isEmpty = true
    · rw [if_pos hempty, if_pos hempty]
    · rw [if_neg hempty, if_neg hempty]
      cases findCrlf rest with
      | none =>
        dsimp only
        cases Utf8.decode rest with
        | none => rfl
        | some text =>
          dsimp only
          rw [← SpannedLines.unspanned_line lines text pos (pos + rest.length)]
          rfl
      | some k =>
        dsimp only
        split_ifs with hzero
        · rfl
        · rw [ih, SpannedLines.unspanned_lineBytes]

theorem map_spannedHeaders (data : List UInt8) (start : ℕ) :
    (spannedHeaders limits data start).map SpannedHeader.toSipHeader =
      (parseHeadersAndBody limits data start).1 := by
  have hloop := unspanned_spanLoop data.length start (data.drop start) { limits }
  have hflush := SpannedLines.unspanned_flush
    (spanLoop data.length start (data.drop start) { limits }).1
  rw [hloop] at hflush
  rw [parseHeadersAndBody_headers]
  exact congrArg HeaderLines.headers hflush

/-! ## The headers from a pending line on -/

def sectionLines (bytes : List UInt8) : List (List UInt8) :=
  match h : findCrlf bytes with
  | none => if bytes.isEmpty then [] else [bytes]
  | some k => if k = 0 then [] else bytes.take k :: sectionLines (bytes.drop (k + 2))
termination_by bytes.length
decreasing_by
  have hlength := length_le_of_findInfix h
  rw [length_drop]
  simp only [length_cons, length_nil] at hlength
  omega

def heldHeader (text : List Char) (span : Option (ℕ × ℕ)) : List SpannedHeader :=
  ((parseHeaderLine text).map (fun hdr => { hdr with lineSpan := span })).toList

/-- The headers that the parser makes from a pending line on, before the cap on their number. -/
def pendingSpans (cap : ℕ) : List Char → Option (ℕ × ℕ) → ℕ → List (List UInt8) →
    List SpannedHeader
  | text, span, _, [] => heldHeader text span
  | text, span, pos, line :: rest =>
    let stop := pos + line.length
    match Utf8.decode line with
    | none => pendingSpans cap text span (stop + 2) rest
    | some next =>
      if HeaderLines.isContinuation next then
        if textLen text + textLen next < cap then
          pendingSpans cap (text ++ ' ' :: trimStart next) (span.map (stretchTo stop)) (stop + 2) rest
        else pendingSpans cap text span (stop + 2) rest
      else heldHeader text span ++
        if cap ≤ textLen next then pendingSpans cap [] none (stop + 2) rest
        else pendingSpans cap next (spanOf pos stop) (stop + 2) rest

def readLines : SpannedLines → ℕ → List (List UInt8) → SpannedLines
  | lines, _, [] => lines
  | lines, pos, line :: rest =>
    readLines (lines.lineBytes line pos) (pos + line.length + 2) rest

theorem take_take_append {α : Type*} (m : ℕ) (a b : List α) :
    (a.take m ++ b).take m = (a ++ b).take m := by
  rw [take_append, take_append, take_take, min_self, length_take]
  rcases le_total m a.length with hle | hle
  · rw [Nat.sub_eq_zero_of_le hle, min_eq_left hle, Nat.sub_self]
  · rw [min_eq_right hle]

namespace SpannedLines

variable {lines : SpannedLines}

theorem headers_flush (h : lines.headers.length ≤ lines.limits.maxHeaders) :
    lines.flush.headers =
      (lines.headers ++ heldHeader lines.pending lines.pendingSpan).take lines.limits.maxHeaders := by
  have hall : lines.headers.take lines.limits.maxHeaders = lines.headers := take_of_length_le h
  rw [flush, heldHeader]
  by_cases hempty : lines.pending.isEmpty = true
  · have hnone : parseHeaderLine [] = none := rfl
    rw [if_pos hempty, List.isEmpty_iff.mp hempty, hnone]
    simp [hall]
  · rw [if_neg hempty]
    cases parseHeaderLine lines.pending with
    | none => simp [hall]
    | some header =>
      split_ifs with hroom
      · exact (take_of_length_le (by simpa using Nat.succ_le_of_lt hroom)).symm
      · rw [take_append_of_le_length (by omega)]
        exact hall.symm

theorem flush_limits (lines : SpannedLines) : lines.flush.limits = lines.limits := by
  rw [flush]
  split
  · rfl
  · split
    · rfl
    · split <;> rfl

theorem pending_flush (lines : SpannedLines) :
    lines.flush.pending = [] ∧ lines.flush.pendingSpan = none := by
  rw [flush]
  split
  · exact ⟨rfl, rfl⟩
  · split
    · exact ⟨rfl, rfl⟩
    · split <;> exact ⟨rfl, rfl⟩

theorem headers_flush_parseError (lines : SpannedLines) (error : Bool) :
    { lines with parseError := error }.flush.headers = lines.flush.headers := by
  rw [flush, flush]
  dsimp only
  split
  · rfl
  · cases parseHeaderLine lines.pending with
    | none => rfl
    | some header =>
      dsimp only
      split <;> rfl

theorem headers_readLines (pos : ℕ) (more : List (List UInt8))
    (h : lines.headers.length ≤ lines.limits.maxHeaders) :
    (readLines lines pos more).flush.headers =
      (lines.headers ++ pendingSpans lines.limits.maxHeaderLine lines.pending lines.pendingSpan pos
        more).take lines.limits.maxHeaders := by
  induction more generalizing lines pos with
  | nil => exact headers_flush h
  | cons bytes more ih =>
    rw [readLines, pendingSpans, lineBytes]
    cases hdecode : Utf8.decode bytes with
    | none => exact ih (pos + bytes.length + 2) (by exact h)
    | some text =>
      dsimp only
      rw [SpannedLines.line]
      by_cases hcont : HeaderLines.isContinuation text = true
      · rw [if_pos hcont, if_pos hcont]
        split_ifs with hcap
        · exact ih (pos + bytes.length + 2) (by exact h)
        · exact ih (pos + bytes.length + 2) (by exact h)
      · have hflush : lines.flush.headers.length ≤ lines.limits.maxHeaders := by
          rw [headers_flush h]
          exact length_take_le _ _
        rw [if_neg hcont, if_neg hcont]
        dsimp only
        rw [flush_limits]
        split_ifs with hlong
        · rw [ih]
          · dsimp only
            rw [(pending_flush lines).1, (pending_flush lines).2, headers_flush h,
              take_take_append, append_assoc]
          · exact hflush
        · rw [ih]
          · dsimp only
            rw [headers_flush h, take_take_append, append_assoc]
          · exact hflush

end SpannedLines

theorem headers_spanLoop (pos : ℕ) (rest : List UInt8) (lines : SpannedLines)
    (hn : rest.length ≤ n) :
    (spanLoop n pos rest lines).1.flush.headers =
      (readLines lines pos (sectionLines rest)).flush.headers := by
  induction n generalizing pos rest lines with
  | zero =>
    obtain rfl := eq_nil_of_length_eq_zero (Nat.le_zero.mp hn)
    rw [spanLoop, sectionLines]
    rfl
  | succ n ih =>
    rw [spanLoop]
    split_ifs with hempty
    · rw [List.isEmpty_iff.mp hempty, sectionLines]
      rfl
    · rw [sectionLines]
      split
      · rename_i hnone
        rw [hnone]
        dsimp only
        rw [if_neg hempty, readLines, readLines, SpannedLines.headers_flush_parseError,
          SpannedLines.lineBytes]
        cases Utf8.decode rest with
        | none => exact (SpannedLines.headers_flush_parseError lines true).symm
        | some text => rfl
      · rename_i k hk
        have hlength := length_le_of_findInfix hk
        rw [hk]
        dsimp only
        split_ifs with hzero
        · rfl
        · rw [readLines, length_take_of_le (by omega)]
          exact ih _ _ _ (by rw [length_drop]; omega)

theorem spannedHeaders_eq (data : List UInt8) (start : ℕ) :
    spannedHeaders limits data start =
      (pendingSpans limits.maxHeaderLine [] none start (sectionLines (data.drop start))).take
        limits.maxHeaders := by
  rw [spannedHeaders, headers_spanLoop _ _ _ _ (by rw [length_drop]; omega)]
  exact SpannedLines.headers_readLines _ _ (Nat.zero_le _)

end Sipnab
