import Sipnab.Sip.Parser

/-!
# The framer and the parser on one message

Both read the header block line by line, with two grammars. The framer takes the first line that
reads as a `Content-Length` by itself; the parser unfolds lines into headers first and drops what is
too long, too many or no text. They find the same end of the header block. They read the same length
where the line the framer takes is a header of its own for the parser, with its value on it.
-/

namespace Sipnab

open Text List

def CrlfEnds (bytes : List UInt8) : Prop :=
  Stepwise (fun before b => b = lf → before.getLast? = some cr) bytes

def headerBlock (data : List UInt8) : List UInt8 :=
  data.take ((findHeaderEnd data).getD data.length)

def crlfLines (lines : List (List UInt8)) : List UInt8 := lines.flatMap (fun line => line ++ [cr, lf])

theorem crlfLines_cons (line : List UInt8) (lines : List (List UInt8)) :
    crlfLines (line :: lines) = line ++ cr :: lf :: crlfLines lines := by
  rw [crlfLines, flatMap_cons, append_assoc, crlfLines]
  rfl

/-! ## The lines of a header block -/

theorem CrlfEnds.of_cons_append {a b : List UInt8} (h : CrlfEnds (a ++ cr :: lf :: b)) :
    CrlfEnds b := by
  intro before x after hsplit hx
  have hlast := h (a ++ cr :: lf :: before) x after (by rw [hsplit]; simp) hx
  cases hbefore : before.getLast? with
  | none =>
    rw [List.getLast?_eq_none_iff] at hbefore
    subst hbefore
    simp [cr, lf] at hlast
  | some last =>
    rw [List.getLast?_append, List.getLast?_cons_cons, List.getLast?_cons, hbefore] at hlast
    simpa using hlast

theorem findCrlf_append {line : List UInt8} (h : lf ∉ line) (rest : List UInt8) :
    findCrlf (line ++ cr :: lf :: rest) = some line.length := by
  rw [findCrlf, findInfix_eq_some_iff]
  refine ⟨by simp, by simp, ?_⟩
  intro j hj hisPrefix
  obtain ⟨t, ht⟩ := hisPrefix
  have hsecond : (line ++ cr :: lf :: rest)[j + 1]? = some lf := by
    have := congrArg (fun l => l[1]?) ht
    simpa [List.getElem?_drop] using this.symm
  by_cases hin : j + 1 < line.length
  · rw [List.getElem?_append_left hin] at hsecond
    exact h (mem_of_getElem? hsecond)
  · have hend : j + 1 = line.length := by omega
    rw [hend, List.getElem?_append_right (Nat.le_refl _)] at hsecond
    simp [cr, lf] at hsecond

variable {lines : List (List UInt8)} {data first : List UInt8} {bodyStart v : ℕ}
  {ext name value : List Char}

theorem findHeaderEnd_of_crlfEnds (h : findHeaderEnd data = some bodyStart)
    (hcrlf : CrlfEnds (data.take bodyStart)) :
    ∃ i, findInfix [cr, lf, cr, lf] data = some i ∧ bodyStart = i + 4 := by
  have hbare : ∀ b, findInfix [lf, lf] data = some b → b + 2 ≠ bodyStart := by
    rintro b hb rfl
    obtain ⟨t, ht⟩ := (findInfix_eq_some_iff.mp hb).2.1
    have hblock : data.take (b + 2) = (data.take b ++ [lf]) ++ lf :: [] := by
      rw [take_add, ← ht]
      simp
    have hlast := hcrlf _ _ _ hblock rfl
    simp [cr, lf] at hlast
  rw [findHeaderEnd] at h
  cases hpair : findInfix [cr, lf, cr, lf] data with
  | none =>
    cases hlf : findInfix [lf, lf] data with
    | none =>
      rw [hpair, hlf] at h
      cases h
    | some b =>
      rw [hpair, hlf] at h
      exact absurd (Option.some.inj h) (hbare b hlf)
  | some i =>
    refine ⟨i, rfl, ?_⟩
    cases hlf : findInfix [lf, lf] data with
    | none =>
      rw [hpair, hlf] at h
      exact (Option.some.inj h).symm
    | some b =>
      rw [hpair, hlf] at h
      have hmin := Option.some.inj h
      have hne := hbare b hlf
      dsimp only at hmin
      omega

/-- The lines of a block: what lies between line ends, none of them empty but perhaps the first. -/
theorem exists_lines (n : ℕ) (pre body : List UInt8) (hn : pre.length = n)
    (hcrlf : CrlfEnds (pre ++ [cr, lf, cr, lf]))
    (hfirst : ∀ j < pre.length, ¬ [cr, lf, cr, lf] <+: (pre ++ [cr, lf, cr, lf] ++ body).drop j) :
    ∃ line lines, pre ++ [cr, lf] = crlfLines (line :: lines) ∧
      (∀ l ∈ line :: lines, lf ∉ l) ∧ ∀ l ∈ lines, l ≠ [] := by
  induction n using Nat.strong_induction_on generalizing pre with
  | _ n ih =>
    cases pre with
    | nil =>
      refine ⟨[], [], rfl, ?_, fun l hl => absurd hl not_mem_nil⟩
      intro l hl
      rw [mem_singleton.mp hl]
      exact not_mem_nil
    | cons b pre =>
      have hb : b ≠ lf := by
        rintro rfl
        simpa using hcrlf [] lf _ rfl rfl
      rw [length_cons] at hn
      by_cases hend : b = cr ∧ pre.head? = some lf
      · -- a line end: an empty line, and the next one is not empty
        obtain ⟨rfl, hhead⟩ := hend
        obtain ⟨pre, rfl⟩ : ∃ rest, pre = lf :: rest := by
          cases pre with
          | nil => cases hhead
          | cons c rest => exact ⟨rest, by rw [Option.some.inj hhead]⟩
        rw [length_cons] at hn
        obtain ⟨line, lines, hlines, hlf, hne⟩ := ih pre.length (by omega) pre rfl
          (CrlfEnds.of_cons_append (a := []) hcrlf)
          (fun j hj => hfirst (j + 2) (by rw [length_cons, length_cons]; omega))
        have hline : line ≠ [] := by
          rintro rfl
          apply hfirst 0 (Nat.succ_pos _)
          rw [crlfLines_cons, nil_append] at hlines
          refine ⟨crlfLines lines ++ [cr, lf] ++ body, ?_⟩
          have hsplit : cr :: lf :: pre ++ [cr, lf, cr, lf] ++ body =
              cr :: lf :: (pre ++ [cr, lf]) ++ ([cr, lf] ++ body) := by simp
          rw [hsplit, hlines]
          simp
        refine ⟨[], line :: lines, ?_, ?_, ?_⟩
        · rw [crlfLines_cons, ← hlines]
          simp
        · intro l hl
          rcases mem_cons.mp hl with rfl | hl
          · exact not_mem_nil
          · exact hlf l hl
        · intro l hl
          rcases mem_cons.mp hl with rfl | hl
          · exact hline
          · exact hne l hl
      · have hcrlf' : CrlfEnds (pre ++ [cr, lf, cr, lf]) := by
          intro before x after hsplit hx
          have hlast := hcrlf (b :: before) x after (by rw [cons_append, hsplit]; rfl) hx
          cases before with
          | nil =>
            have hbcr : b = cr := by simpa using hlast
            refine absurd ⟨hbcr, ?_⟩ hend
            cases pre with
            | nil => simp [hx, cr, lf] at hsplit
            | cons c rest =>
              obtain ⟨rfl, -⟩ : c = x ∧ _ := by simpa using hsplit
              rw [hx]
              rfl
          | cons c before => simpa using hlast
        obtain ⟨line, lines, hlines, hlf, hne⟩ := ih pre.length (by omega) pre rfl hcrlf'
          (fun j hj => hfirst (j + 1) (by rw [length_cons]; omega))
        refine ⟨b :: line, lines, ?_, ?_, hne⟩
        · rw [cons_append, hlines, crlfLines_cons, crlfLines_cons]
          rfl
        · intro l hl
          rcases mem_cons.mp hl with rfl | hl
          · intro hmem
            rcases mem_cons.mp hmem with heq | hmem
            · exact hb heq.symm
            · exact hlf line mem_cons_self hmem
          · exact hlf l (mem_cons_of_mem _ hl)

theorem exists_lines_of_findHeaderEnd (h : findHeaderEnd data = some bodyStart)
    (hcrlf : CrlfEnds (data.take bodyStart)) :
    ∃ line lines, data.take bodyStart = crlfLines (line :: lines) ++ [cr, lf] ∧
      (∀ l ∈ line :: lines, lf ∉ l) ∧ ∀ l ∈ lines, l ≠ [] := by
  obtain ⟨i, hi, rfl⟩ := findHeaderEnd_of_crlfEnds h hcrlf
  obtain ⟨hle, ⟨body, hbody⟩, hfirst⟩ := findInfix_eq_some_iff.mp hi
  have hdata : data.take i ++ [cr, lf, cr, lf] ++ body = data := by
    rw [append_assoc, hbody, take_append_drop]
  have hlength : (data.take i).length = i := by
    rw [length_take]
    omega
  have hblock : data.take (i + 4) = data.take i ++ [cr, lf, cr, lf] := by
    rw [take_add, ← hbody]
    simp
  rw [hblock] at hcrlf ⊢
  obtain ⟨line, lines, hlines, hlf, hne⟩ := exists_lines i (data.take i) body hlength hcrlf
    (by rwa [hdata, hlength])
  refine ⟨line, lines, ?_, hlf, hne⟩
  rw [← hlines]
  simp

/-! ## The framer on the lines -/

theorem splitOn_crlfLines (lines : List (List UInt8)) (hlf : ∀ l ∈ lines, lf ∉ l) :
    (crlfLines lines ++ [cr, lf]).splitOn lf =
      lines.map (fun line => line ++ [cr]) ++ [[cr], []] := by
  induction lines with
  | nil => decide
  | cons line lines ih =>
    have hline : lf ∉ line ++ [cr] := by
      rw [mem_append, not_or]
      exact ⟨hlf line mem_cons_self, by decide⟩
    have hsplit : crlfLines (line :: lines) ++ [cr, lf] =
        (line ++ [cr]) ++ lf :: (crlfLines lines ++ [cr, lf]) := by
      rw [crlfLines_cons]
      simp
    rw [hsplit, splitOn_append_cons_self_of_not_mem hline,
      ih (fun l hl => hlf l (mem_cons_of_mem _ hl))]
    rfl

theorem parseContentLength_crlfLines (hlf : ∀ l ∈ lines, lf ∉ l) :
    parseContentLength (crlfLines lines ++ [cr, lf]) =
      (lines.findSome? (fun line => contentLengthLine (line ++ [cr]))).getD 0 := by
  have hend : [[cr], []].findSome? contentLengthLine = none := by decide
  rw [parseContentLength, splitOn_crlfLines lines hlf, List.findSome?_append, hend,
    List.findSome?_map, Option.or_none]
  rfl

/-! ## The parser on the lines -/

theorem headerLoop_crlfLines (lines : List (List UInt8)) (hlf : ∀ l ∈ lines, lf ∉ l)
    (hne : ∀ l ∈ lines, l ≠ []) (n pos : ℕ) (hn : lines.length < n) (body : List UInt8)
    (st : HeaderLines) :
    headerLoop n pos (crlfLines lines ++ cr :: lf :: body) st =
      (lines.foldl HeaderLines.lineBytes st, some (pos + (crlfLines lines).length + 2)) := by
  induction lines generalizing n pos st with
  | nil =>
    obtain ⟨n, rfl⟩ := Nat.exists_eq_add_one_of_ne_zero (Nat.ne_of_gt hn)
    have hcrlf : findCrlf ([] ++ cr :: lf :: body) = some 0 := findCrlf_append not_mem_nil body
    rw [nil_append] at hcrlf
    rw [headerLoop]
    simp [crlfLines, hcrlf]
  | cons line lines ih =>
    obtain ⟨n, rfl⟩ := Nat.exists_eq_add_one_of_ne_zero (Nat.ne_of_gt (Nat.zero_lt_of_lt hn))
    have hcrlf := findCrlf_append (hlf line mem_cons_self) (crlfLines lines ++ cr :: lf :: body)
    have hlength : line.length ≠ 0 := fun h => hne line mem_cons_self (length_eq_zero_iff.mp h)
    have hsome : (line ++ cr :: lf :: (crlfLines lines ++ cr :: lf :: body)).isEmpty = false := by
      simp
    have hdrop : (line ++ cr :: lf :: (crlfLines lines ++ cr :: lf :: body)).drop (line.length + 2) =
        crlfLines lines ++ cr :: lf :: body := by
      rw [← drop_drop]
      simp
    rw [crlfLines_cons, append_assoc, cons_append, cons_append, headerLoop, hcrlf, hsome]
    dsimp only
    rw [if_neg Bool.false_ne_true, if_neg hlength, hdrop, take_left,
      ih (fun l hl => hlf l (mem_cons_of_mem _ hl))
        (fun l hl => hne l (mem_cons_of_mem _ hl)) _ _ (Nat.lt_of_succ_lt_succ hn),
      foldl_cons, length_append, length_cons, length_cons]
    congr 2
    omega

/-! ## A header that may still be continued -/

def Folded (ext : List Char) : Prop := ext = [] ∨ ∃ rest, ext = ' ' :: rest

theorem Folded.append (h : Folded ext) (rest : List Char) : Folded (ext ++ ' ' :: rest) := by
  rcases h with rfl | ⟨first, rfl⟩
  · exact Or.inr ⟨rest, rfl⟩
  · exact Or.inr ⟨_, rfl⟩

/-- The header that started with this text is still pending or was stored. -/
def HeaderLines.Keeps (start : List Char) (lines : HeaderLines) : Prop :=
  (∃ ext, Folded ext ∧ lines.pending = start ++ ext ∧
      lines.headers.length < lines.limits.maxHeaders) ∨
    ∃ ext h, Folded ext ∧ parseHeaderLine (start ++ ext) = some h ∧ h ∈ lines.headers

namespace HeaderLines

variable {start : List Char} {lines : HeaderLines}

theorem flush_headers (lines : HeaderLines) : lines.headers <+: lines.flush.headers := by
  rw [flush]
  split
  · exact prefix_rfl
  · split
    · exact prefix_rfl
    · split
      · exact prefix_append _ _
      · exact prefix_rfl

theorem Keeps.flush (hstart : start ≠ []) (hheader : ∀ ext, (parseHeaderLine (start ++ ext)).isSome)
    (h : lines.Keeps start) :
    ∃ ext h, Folded ext ∧ parseHeaderLine (start ++ ext) = some h ∧ h ∈ lines.flush.headers := by
  rcases h with ⟨ext, hext, hpending, hroom⟩ | ⟨ext, h, hext, hparse, hmem⟩
  · obtain ⟨h, hparse⟩ := Option.isSome_iff_exists.mp (hheader ext)
    refine ⟨ext, h, hext, hparse, ?_⟩
    have hsome : lines.pending.isEmpty = false := by simp [hpending, hstart]
    rw [HeaderLines.flush, hsome, hpending, hparse]
    dsimp only
    rw [if_neg Bool.false_ne_true, if_pos hroom]
    simp
  · exact ⟨ext, h, hext, hparse, (flush_headers lines).subset hmem⟩

theorem Keeps.line (hstart : start ≠ []) (hheader : ∀ ext, (parseHeaderLine (start ++ ext)).isSome)
    (h : lines.Keeps start) (text : List Char) : (lines.line text).Keeps start := by
  rw [HeaderLines.line]
  split
  · split
    · rcases h with ⟨ext, hext, hpending, hroom⟩ | hstored
      · refine Or.inl ⟨ext ++ ' ' :: trimStart text, hext.append _, ?_, hroom⟩
        rw [← append_assoc, ← hpending]
      · exact Or.inr hstored
    · exact h
  · have hstored := h.flush hstart hheader
    dsimp only
    split
    · exact Or.inr hstored
    · exact Or.inr hstored

theorem Keeps.foldl (hstart : start ≠ [])
    (hheader : ∀ ext, (parseHeaderLine (start ++ ext)).isSome) (h : lines.Keeps start)
    (more : List (List UInt8)) : (more.foldl lineBytes lines).Keeps start := by
  induction more generalizing lines with
  | nil => exact h
  | cons bytes more ih =>
    apply ih
    rw [lineBytes]
    split
    · exact h.line hstart hheader _
    · exact h

theorem flush_limits (lines : HeaderLines) : lines.flush.limits = lines.limits := by
  rw [flush]
  split
  · rfl
  · split
    · rfl
    · split <;> rfl

theorem flush_of_pending_nil (h : lines.pending = []) : lines.flush.headers = lines.headers := by
  rw [flush, h]
  rfl

end HeaderLines

/-! ## A line that reads as a length -/

def isLengthName (name : List Char) : Bool :=
  eqIgnoreAsciiCase name "content-length".toList || eqIgnoreAsciiCase name "l".toList

theorem isLengthName_ne_nil (h : isLengthName name = true) : name ≠ [] := by
  rintro rfl
  exact absurd h (by decide)

theorem expandCompactHeader_of_isLengthName (h : isLengthName name = true) (value : String) :
    isContentLength ⟨expandCompactHeader name, value⟩ = true := by
  rw [isLengthName, Bool.or_eq_true, eqIgnoreAsciiCase, eqIgnoreAsciiCase, beq_iff_eq,
    beq_iff_eq] at h
  rw [isContentLength, eqIgnoreAsciiCase, beq_iff_eq]
  rcases h with hlong | hshort
  · have hname : expandCompactHeader name = String.ofList name := by
      unfold expandCompactHeader
      split
      · have hlength := congrArg List.length hlong
        simp at hlength
      · rfl
    rw [hname, String.toList_ofList, hlong]
    decide
  · obtain ⟨c, rfl⟩ : ∃ c, name = [c] := by
      rw [← length_eq_one_iff, ← length_map (f := toAsciiLowercase), hshort]
      rfl
    have hc : toAsciiLowercase c = 'l' := (List.cons.inj hshort).1
    have hname : expandCompactHeader [c] = "Content-Length" := by
      rw [expandCompactHeader, hc]
      rfl
    rw [hname]

theorem stripCr_concat (line : List UInt8) : stripCr (line ++ [cr]) = line := by
  rw [stripCr, List.getLast?_concat, if_pos rfl, dropLast_concat]

theorem exists_length_of_contentLengthLine {line : List UInt8} {text : List Char}
    (hdecode : Utf8.decode line = some text) (h : contentLengthLine (line ++ [cr]) = some v) :
    ∃ name value, splitOnce ':' text = some (name, value) ∧ isLengthName (trim name) = true ∧
      v = (parseUsize (trim value)).getD 0 := by
  rw [contentLengthLine, stripCr_concat] at h
  cases hcolon : line.idxOf? colon with
  | none =>
    rw [hcolon] at h
    cases h
  | some i =>
    rw [hcolon] at h
    obtain ⟨hi, hat, hbefore⟩ := List.idxOf?_eq_some_iff.mp hcolon
    have hline : line = line.take i ++ colon :: line.drop (i + 1) := by
      rw [← hat, ← drop_eq_getElem_cons hi, take_append_drop]
    rw [hline, Utf8.decode_append_cons (by decide)] at hdecode
    obtain ⟨name, hname, hrest⟩ := Option.bind_eq_some_iff.mp hdecode
    obtain ⟨value, hvalue, rfl⟩ := Option.map_eq_some_iff.mp hrest
    have hnot : ':' ∉ name := by
      intro hmem
      obtain ⟨b, hb, hbyte⟩ := Utf8.exists_byte_of_mem_decodeFrom hname hmem (by decide)
      have hcolon : b = colon := by
        apply UInt8.toNat_inj.mp
        rw [← Utf8.toNat_ofByte, hbyte]
        rfl
      obtain ⟨j, hj, hget⟩ := mem_take_iff_getElem.mp hb
      exact hbefore j (by omega) (by rw [hget, hcolon])
    dsimp only at h
    rw [trimmedText, trimmedText, hname, hvalue] at h
    refine ⟨name, value, splitOnce_append_cons hnot value, ?_⟩
    split_ifs at h with hlength
    exact ⟨hlength, (Option.some.inj h).symm⟩

theorem parseHeaderLine_append {start : List Char}
    (hsplit : splitOnce ':' start = some (name, value)) (hname : trim name ≠ []) (ext : List Char) :
    parseHeaderLine (start ++ ext) =
      some ⟨expandCompactHeader (trim name), String.ofList (trim (value ++ ext))⟩ := by
  obtain ⟨rfl, hnot⟩ := eq_append_of_splitOnce hsplit
  rw [parseHeaderLine, append_assoc, cons_append, splitOnce_append_cons hnot]
  dsimp only
  rw [if_neg]
  rw [List.isEmpty_iff]
  exact hname

theorem parseUsize_of_folded {n : ℕ} (hvalue : trim value ≠ []) (hext : Folded ext)
    (h : parseUsize (trim (value ++ ext)) = some n) : parseUsize (trim value) = some n := by
  rcases hext with rfl | ⟨rest, rfl⟩
  · rwa [append_nil] at h
  · rcases trim_append_cons_blank hvalue (c := ' ') (by decide) rest with heq | hmem
    · rwa [heq] at h
    · exact absurd hmem (not_mem_of_parseUnsigned h (by decide))

/-! ## Agreement -/

/-- With these lines read, the parser takes the line for a header of its own, with its value on it. -/
def OwnHeader (lines : HeaderLines) (line : List UInt8) : Prop :=
  ∃ text name value, Utf8.decode line = some text ∧ splitOnce ':' text = some (name, value) ∧
    trim value ≠ [] ∧ textLen text < lines.limits.maxHeaderLine ∧
    (HeaderLines.isContinuation text = true → lines.pending = []) ∧
    lines.flush.headers.length < lines.limits.maxHeaders

/-- The lines of a header block, without the blank one that ends it. -/
def blockLines (block : List UInt8) : List (List UInt8) :=
  ((block.splitOn lf).dropLast.dropLast).map stripCr

/-- The first line that reads as a length by itself is a header of its own. -/
def LengthOnOwnLine (limits : ParserLimits) (block : List UInt8) : Prop :=
  ∃ first before line after, blockLines block = first :: (before ++ line :: after) ∧
    (∀ l ∈ first :: before, contentLengthLine (l ++ [cr]) = none) ∧
    contentLengthLine (line ++ [cr]) ≠ none ∧
    OwnHeader (before.foldl HeaderLines.lineBytes { limits }) line

theorem blockLines_crlfLines (hlf : ∀ l ∈ lines, lf ∉ l) :
    blockLines (crlfLines lines ++ [cr, lf]) = lines := by
  have hstrip : ∀ l : List UInt8, (stripCr ∘ fun line => line ++ [cr]) l = l := stripCr_concat
  rw [blockLines, splitOn_crlfLines lines hlf, append_cons, dropLast_concat,
    dropLast_concat, List.map_map, map_congr_left (fun l _ => hstrip l), List.map_id']

theorem OwnHeader.keeps {lines : HeaderLines} {line : List UInt8} (h : OwnHeader lines line)
    (hlength : contentLengthLine (line ++ [cr]) = some v) :
    ∃ start name value, splitOnce ':' start = some (name, value) ∧
      isLengthName (trim name) = true ∧ trim value ≠ [] ∧ v = (parseUsize (trim value)).getD 0 ∧
      (lines.lineBytes line).Keeps start := by
  obtain ⟨text, name, value, hdecode, hsplit, hvalue, hshort, hpending, hroom⟩ := h
  obtain ⟨name', value', hsplit', hname, hv⟩ := exists_length_of_contentLengthLine hdecode hlength
  obtain ⟨rfl, rfl⟩ : name = name' ∧ value = value' := by simpa [hsplit] using hsplit'
  rw [HeaderLines.lineBytes, hdecode]
  dsimp only
  rw [HeaderLines.line]
  dsimp only
  split_ifs with hcontinuation hfits hlong
  · -- nothing is pending, so the blank in front is all that is added
    obtain ⟨rfl, hnot⟩ := eq_append_of_splitOnce hsplit
    have hstart := trimStart_ne_nil (isLengthName_ne_nil hname)
    rw [hpending hcontinuation, trimStart_append hstart]
    refine ⟨' ' :: trimStart name ++ ':' :: value, ' ' :: trimStart name, value, ?_, ?_, hvalue, hv,
      Or.inl ⟨[], Or.inl rfl, ?_, ?_⟩⟩
    · apply splitOnce_append_cons
      intro hmem
      rcases mem_cons.mp hmem with hblank | hmem
      · exact absurd hblank (by decide)
      · exact hnot ((dropWhile_suffix isWhitespace).subset hmem)
    · rwa [trim_cons_blank (by decide), trim_trimStart]
    · simp
    · rwa [← HeaderLines.flush_of_pending_nil (hpending hcontinuation)]
  · rw [hpending hcontinuation] at hfits
    exact absurd (by simpa [textLen] using hshort) hfits
  · rw [HeaderLines.flush_limits] at hlong
    omega
  · refine ⟨text, name, value, hsplit, hname, hvalue, hv, Or.inl ⟨[], Or.inl rfl, ?_, ?_⟩⟩
    · simp
    · rwa [HeaderLines.flush_limits]

theorem exists_header_of_lengthOnOwnLine {limits : ParserLimits}
    (hlf : ∀ l ∈ first :: lines, lf ∉ l)
    (h : LengthOnOwnLine limits (crlfLines (first :: lines) ++ [cr, lf])) :
    ∃ hdr ∈ (lines.foldl HeaderLines.lineBytes { limits }).flush.headers,
      isContentLength hdr = true ∧ ∀ n, hdr.number = some n →
        parseContentLength (crlfLines (first :: lines) ++ [cr, lf]) = n := by
  obtain ⟨first', before, line, after, hlines, hnone, hsome, hown⟩ := h
  rw [blockLines_crlfLines hlf] at hlines
  obtain ⟨rfl, rfl⟩ : first = first' ∧ lines = before ++ line :: after := by simpa using hlines
  obtain ⟨v, hv⟩ := Option.ne_none_iff_exists'.mp hsome
  have hframer : parseContentLength (crlfLines (first :: (before ++ line :: after)) ++ [cr, lf]) =
      v := by
    rw [parseContentLength_crlfLines hlf, ← cons_append, List.findSome?_append,
      List.findSome?_eq_none_iff.mpr hnone, Option.none_or, List.findSome?_cons, hv]
    rfl
  obtain ⟨start, name, value, hsplit, hname, hvalue, hnumber, hkeeps⟩ := hown.keeps hv
  have hheader := parseHeaderLine_append hsplit (isLengthName_ne_nil hname)
  have hstart : start ≠ [] := by
    rintro rfl
    cases hsplit
  have hisSome : ∀ ext, (parseHeaderLine (start ++ ext)).isSome := by
    intro ext
    rw [hheader ext]
    rfl
  obtain ⟨ext, hdr, hext, hparse, hmem⟩ := (hkeeps.foldl hstart hisSome after).flush hstart hisSome
  rw [hheader ext] at hparse
  obtain rfl := Option.some.inj hparse
  rw [foldl_append, foldl_cons]
  refine ⟨_, hmem, expandCompactHeader_of_isLengthName hname _, ?_⟩
  intro n hn
  rw [SipHeader.number, String.toList_ofList, trim_trim] at hn
  rw [hframer, hnumber, parseUsize_of_folded hvalue hext hn]
  rfl

def parserBodyStart (limits : ParserLimits) (data : List UInt8) : Option ℕ :=
  (findCrlf data).bind (fun firstCrlf => (headerLines limits data (firstCrlf + 2)).2)

theorem headerLines_crlfLines (limits : ParserLimits) (hlf : ∀ l ∈ first :: lines, lf ∉ l)
    (hne : ∀ l ∈ lines, l ≠ []) (body : List UInt8) :
    headerLines limits (crlfLines (first :: lines) ++ cr :: lf :: body) (first.length + 2) =
      ((lines.foldl HeaderLines.lineBytes { limits }).flush,
        some ((crlfLines (first :: lines)).length + 2)) := by
  have hdrop : (crlfLines (first :: lines) ++ cr :: lf :: body).drop (first.length + 2) =
      crlfLines lines ++ cr :: lf :: body := by
    rw [crlfLines_cons, ← drop_drop]
    simp
  have hcount : lines.length ≤ (crlfLines lines).length := by
    clear hlf hne hdrop
    induction lines with
    | nil => exact Nat.zero_le _
    | cons line lines ih =>
      rw [crlfLines_cons, length_append, length_cons, length_cons, length_cons]
      omega
  have hloop := headerLoop_crlfLines lines (fun l hl => hlf l (mem_cons_of_mem _ hl)) hne
    (crlfLines (first :: lines) ++ cr :: lf :: body).length (first.length + 2)
    (by rw [crlfLines_cons]; simp only [length_append, length_cons]; omega) body { limits }
  rw [headerLines, hdrop, hloop, crlfLines_cons, length_append, length_cons, length_cons]
  dsimp only
  congr 2
  omega

/-- A range the framer emits, with CRLF line ends, that the parser reads as a message whose one
`Content-Length` header is the number `n`. -/
structure FramedMessage (limits : ParserLimits) (data : List UInt8) (r : ℕ × ℕ) (captured : Captured)
    (msg : ParsedMessage) (n : ℕ) : Prop where
  emitted : r ∈ (frameTcpSip data).1
  crlfEnds : CrlfEnds (headerBlock (data.drop r.1))
  parsed : parseSipBytes limits (slice data r) captured = .ok msg
  one_length : ∃ h, msg.headers.filter isContentLength = [h] ∧ h.number = some n

/-- The parser's body starts where the framer's header block ends, and the length is the number of
bytes the framer took as body. -/
def DelimitedAlike (limits : ParserLimits) (data : List UInt8) (r : ℕ × ℕ) (n : ℕ) : Prop :=
  ∃ bodyStart, findHeaderEnd (data.drop r.1) = some bodyStart ∧
    parserBodyStart limits (slice data r) = some bodyStart ∧ r.2 = r.1 + bodyStart + n

/-- The two always agree on where the body starts, and on its length where the first line that reads
as one is a header of its own. -/
theorem delimited_alike {limits : ParserLimits} {data : List UInt8} {r : ℕ × ℕ} {captured : Captured}
    {msg : ParsedMessage} {n : ℕ} (h : FramedMessage limits data r captured msg n) :
    (∃ bodyStart, findHeaderEnd (data.drop r.1) = some bodyStart ∧
      parserBodyStart limits (slice data r) = some bodyStart) ∧
    (LengthOnOwnLine limits (headerBlock (data.drop r.1)) → DelimitedAlike limits data r n) := by
  obtain ⟨msgEnd, hmessage, hstop, hslice⟩ := frameTcpSip_range h.emitted
  obtain ⟨bodyStart, hbody, hsum, -, hlength⟩ := messageEnd_eq_some_iff.mp hmessage
  have hblock : headerBlock (data.drop r.1) = (data.drop r.1).take bodyStart := by
    rw [headerBlock, hbody]
    rfl
  have hcrlf := h.crlfEnds
  rw [hblock] at hcrlf ⊢
  obtain ⟨first, lines, hlines, hlf, hne⟩ := exists_lines_of_findHeaderEnd hbody hcrlf
  have hbodyLength : bodyStart = (crlfLines (first :: lines)).length + 2 := by
    have hcount := congrArg List.length hlines
    rw [length_take, length_append] at hcount
    simp only [length_cons, length_nil] at hcount
    omega
  -- the range is the block with its body behind it
  obtain ⟨body, hrange⟩ : ∃ body, slice data r =
      crlfLines (first :: lines) ++ cr :: lf :: body := by
    refine ⟨((data.drop r.1).drop bodyStart).take (msgEnd - bodyStart), ?_⟩
    rw [hslice, show msgEnd = bodyStart + (msgEnd - bodyStart) by omega, take_add, hlines]
    simp
  have hfirst : findCrlf (slice data r) = some first.length := by
    rw [hrange, crlfLines_cons, append_assoc, cons_append, cons_append]
    exact findCrlf_append (hlf first mem_cons_self) _
  have hread := headerLines_crlfLines limits hlf hne body
  rw [← hrange] at hread
  have hstart : parserBodyStart limits (slice data r) = some bodyStart := by
    rw [parserBodyStart, hfirst, Option.bind_some, hread, hbodyLength]
  refine ⟨⟨bodyStart, hbody, hstart⟩, fun hown => ⟨bodyStart, hbody, hstart, ?_⟩⟩
  rw [hlines] at hown hsum
  obtain ⟨hdr, hmem, hname, hnumber⟩ := exists_header_of_lengthOnOwnLine hlf hown
  obtain ⟨h', hone, hn⟩ := h.one_length
  obtain ⟨firstCrlf, hcrlf, hheaders, -⟩ := parseSipBytes_cases h.parsed
  obtain rfl := Option.some.inj (hcrlf.symm.trans hfirst)
  rw [hread] at hheaders
  have hsame : hdr ∈ msg.headers.filter isContentLength := by
    rw [hheaders]
    exact mem_filter.mpr ⟨hmem, hname⟩
  rw [hone, mem_singleton] at hsame
  subst hsame
  have hframer := hnumber n hn
  omega

instance (bytes : List UInt8) : Decidable (CrlfEnds bytes) :=
  inferInstanceAs (Decidable (Stepwise _ bytes))

def anyCaptured : Captured where
  timestamp := 0
  srcAddr := .v4 0x0A000001
  dstAddr := .v4 0x0A000002
  srcPort := 5060
  dstPort := 5060

/-- A request with a folded `Subject` in front of its length. -/
def foldedSubject : List UInt8 :=
  asciiBytes "BYE sip:b SIP/2.0\r\nSubject: a\r\n b\r\nl: 2\r\n\r\nhi"

theorem delimited_alike_foldedSubject :
    ∃ msg, FramedMessage {} foldedSubject (0, 45) anyCaptured msg 2 ∧
      LengthOnOwnLine {} (headerBlock foldedSubject) ∧ DelimitedAlike {} foldedSubject (0, 45) 2 := by
  have hframed : FramedMessage {} foldedSubject (0, 45) anyCaptured _ 2 :=
    { emitted := by decide +kernel
      crlfEnds := by decide +kernel
      parsed := rfl
      one_length := ⟨⟨"Content-Length", "2"⟩, by decide +kernel, by decide +kernel⟩ }
  have hown : LengthOnOwnLine {} (headerBlock foldedSubject) := by
    refine ⟨asciiBytes "BYE sip:b SIP/2.0", [asciiBytes "Subject: a", asciiBytes " b"],
      asciiBytes "l: 2", [], by decide +kernel, by decide +kernel, by decide +kernel,
      "l: 2".toList, "l".toList, " 2".toList, by decide +kernel, by decide +kernel,
      by decide +kernel, by decide +kernel, by decide +kernel, by decide +kernel⟩
  exact ⟨_, hframed, hown, (delimited_alike hframed).2 hown⟩

def foldedLength : List UInt8 :=
  asciiBytes "BYE sip:b SIP/2.0\r\nl:\r\n 2\r\n\r\nhi"

/-- The framer reads no number and cuts the body off. -/
theorem folded_length_misread :
    ∃ msg, FramedMessage {} foldedLength (0, 29) anyCaptured msg 2 ∧
      ¬ DelimitedAlike {} foldedLength (0, 29) 2 := by
  have hframed : FramedMessage {} foldedLength (0, 29) anyCaptured _ 2 :=
    { emitted := by decide +kernel
      crlfEnds := by decide +kernel
      parsed := rfl
      one_length := ⟨⟨"Content-Length", "2"⟩, by decide +kernel, by decide +kernel⟩ }
  refine ⟨_, hframed, ?_⟩
  rintro ⟨bodyStart, hbody, -, hstop⟩
  have hend : findHeaderEnd (foldedLength.drop 0) = some 29 := by decide +kernel
  rw [hend] at hbody
  cases hbody
  cases hstop

end Sipnab
