import Sipnab.Sip.SdpBody

/-!
# The dispatcher sees every SDP

What is read of a message without a blank in it stands among its bytes as it is read: a folded
header is put together with a blank, and bytes that are no text are read as something else. So the
name of the type that makes a body SDP stands among the bytes of the message.
-/

namespace Sipnab

open Text List

/-! ## Text that stands among the bytes -/

def Solid (c : Char) : Prop := c.toNat < 0x80 ∧ c ≠ ' ' ∧ c ≠ '\t'

def charByte (c : Char) : UInt8 := UInt8.ofNat c.toNat

/-- What is written in a text without blanks stands among the bytes. -/
def Spells (payload : List UInt8) (s : List Char) : Prop :=
  ∀ w, w <:+: s → (∀ c ∈ w, Solid c) → w.map charByte <:+: payload

section Spells

variable {payload bytes : List UInt8} {s t : List Char}

theorem Spells.of_isInfix (h : Spells payload s) (ht : t <:+: s) : Spells payload t :=
  fun w hw hsolid => h w (hw.trans ht) hsolid

theorem Spells.mono (h : Spells bytes s) (hbytes : bytes <:+: payload) : Spells payload s :=
  fun w hw hsolid => (h w hw hsolid).trans hbytes

theorem spells_nil : Spells payload [] := by
  intro w hw _
  rw [infix_nil.mp hw]
  exact nil_infix

theorem spells_fromUtf8Lossy (bytes : List UInt8) : Spells bytes (Utf8.fromUtf8Lossy bytes) :=
  fun _ hw hsolid => Utf8.isInfix_of_fromUtf8Lossy (fun c hc => (hsolid c hc).1) hw

theorem spells_of_decode (h : Utf8.decode bytes = some s) : Spells bytes s := by
  rw [← Utf8.fromUtf8Lossy_of_decode h]
  exact spells_fromUtf8Lossy bytes

theorem infix_of_append_cons {α : Type*} {w a b : List α} {c : α} (hc : c ∉ w)
    (h : w <:+: a ++ c :: b) : w <:+: a ∨ w <:+: b := by
  rcases infix_append_iff.mp h with hleft | hright | ⟨front, back, rfl, hfront, hback⟩
  · exact .inl hleft
  · rcases infix_cons_iff.mp hright with hisPrefix | hisInfix
    · cases w with
      | nil => exact .inl nil_infix
      | cons d w =>
        obtain ⟨rfl, -⟩ := cons_prefix_cons.mp hisPrefix
        exact absurd mem_cons_self hc
    · exact .inr hisInfix
  · cases back with
    | nil =>
      rw [append_nil]
      exact .inl hfront.isInfix
    | cons d back =>
      obtain ⟨rfl, -⟩ := cons_prefix_cons.mp hback
      exact absurd (mem_append_right front mem_cons_self) hc

theorem Spells.append_blank (hs : Spells payload s) {c : Char} (hc : c = ' ' ∨ c = '\t')
    (ht : Spells payload t) : Spells payload (s ++ c :: t) := by
  intro w hw hsolid
  have hnot : c ∉ w := by
    intro hmem
    obtain ⟨-, hspace, htab⟩ := hsolid c hmem
    exact hc.elim hspace htab
  rcases infix_of_append_cons hnot hw with h | h
  · exact hs w h hsolid
  · exact ht w h hsolid

end Spells

/-! ### Pieces of text -/

section Pieces

variable {s : List Char}

theorem trimStart_suffix (s : List Char) : trimStart s <:+ s := dropWhile_suffix _

theorem trim_isInfix (s : List Char) : trim s <:+: s :=
  (trimEnd_isPrefix _).isInfix.trans (trimStart_suffix s).isInfix

variable {sep : Char} {piece : List Char}

theorem isPrefix_of_split {rest : List (List Char)} (h : split sep s = piece :: rest) :
    piece <+: s := by
  induction s generalizing piece rest with
  | nil =>
    obtain ⟨rfl, -⟩ := List.cons.inj h
    exact nil_prefix
  | cons c s ih =>
    rw [split] at h
    split_ifs at h with hsep
    · obtain ⟨rfl, -⟩ := List.cons.inj h
      exact nil_prefix
    · cases hs : split sep s with
      | nil =>
        rw [hs] at h
        obtain ⟨rfl, -⟩ := List.cons.inj h
        exact cons_prefix_cons.mpr ⟨rfl, nil_prefix⟩
      | cons first others =>
        rw [hs] at h
        obtain ⟨rfl, -⟩ := List.cons.inj h
        exact cons_prefix_cons.mpr ⟨rfl, ih hs⟩

theorem isInfix_of_mem_split (h : piece ∈ split sep s) : piece <:+: s := by
  induction s generalizing piece with
  | nil =>
    rw [split, mem_singleton] at h
    rw [h]
  | cons c s ih =>
    cases hsplit : split sep (c :: s) with
    | nil =>
      rw [hsplit] at h
      cases h
    | cons first others =>
      rw [hsplit] at h
      rcases mem_cons.mp h with rfl | hother
      · exact (isPrefix_of_split hsplit).isInfix
      · apply infix_cons
        apply ih
        rw [split] at hsplit
        split_ifs at hsplit with hsep
        · rw [(List.cons.inj hsplit).2]
          exact hother
        · cases hs : split sep s with
          | nil =>
            rw [hs] at hsplit
            rw [← (List.cons.inj hsplit).2] at hother
            cases hother
          | cons d ds =>
            rw [hs] at hsplit
            rw [(List.cons.inj hsplit).2]
            exact mem_cons_of_mem _ hother

theorem isInfix_of_splitOnce {a b : List Char} (h : splitOnce sep s = some (a, b)) : b <:+: s := by
  obtain ⟨rfl, -⟩ := eq_append_of_splitOnce h
  exact (suffix_cons sep b).isInfix.trans (suffix_append _ _).isInfix

theorem mediaType_isInfix (s : List Char) : mediaType s <:+: s :=
  (trim_isInfix _).trans ( takeWhile_prefix _).isInfix

theorem isInfix_of_mem_textLines {line : List Char} (h : line ∈ textLines s) : line <:+: s := by
  have hended : ∀ line ∈ (split '\n' s).dropLast.map (fun line =>
      if line.getLast? = some '\r' then line.dropLast else line), line <:+: s := by
    intro line hline
    obtain ⟨piece, hpiece, rfl⟩ := List.mem_map.mp hline
    have hisInfix := isInfix_of_mem_split ((dropLast_sublist _).subset hpiece)
    split_ifs with hcr
    · exact ( dropLast_prefix _).isInfix.trans hisInfix
    · exact hisInfix
  unfold textLines at h
  dsimp only at h
  split at h
  · rename_i c rest hlast
    rcases mem_append.mp h with h | h
    · exact hended line h
    · rw [mem_singleton] at h
      rw [h]
      exact isInfix_of_mem_split (mem_of_getLast? hlast)
  · exact hended line h

end Pieces

/-! ## The name of the type -/

theorem toAsciiLowercaseByte_eq_slash {b : UInt8} (h : toAsciiLowercaseByte b = 0x2F) :
    b = 0x2F := by
  rw [toAsciiLowercaseByte] at h
  split_ifs at h with hupper
  · rw [Bool.and_eq_true, decide_eq_true_eq, decide_eq_true_eq] at hupper
    have hlow : 65 ≤ b.toNat := hupper.1
    have hhigh : b.toNat ≤ 90 := hupper.2
    have hsum : b.toNat + 32 = 0x2F := by
      have heq := congrArg UInt8.toNat h
      rw [UInt8.toNat_add] at heq
      have h32 : (32 : UInt8).toNat = 32 := rfl
      have h47 : (0x2F : UInt8).toNat = 0x2F := rfl
      omega
    omega
  · exact h

variable {payload body xs : List UInt8} {ct : List Char} {part : MimePart} {off bodyStart : ℕ}

theorem namesSdp_of_isInfix {w : List UInt8} (h : w <:+: payload)
    (hname : w.map toAsciiLowercaseByte = asciiBytes "application/sdp") :
    namesSdp payload = true := by
  obtain ⟨front, back, rfl⟩ := h
  have hlength : w.length = 15 := by
    have := congrArg List.length hname
    rw [length_map] at this
    exact this
  have hslash : w[11]? = some 0x2F := by
    have hget := congrArg (fun l : List UInt8 => l[11]?) hname
    rw [List.getElem?_map, show (asciiBytes "application/sdp")[11]? = some 0x2F from rfl,
      Option.map_eq_some_iff] at hget
    obtain ⟨b, hb, heq⟩ := hget
    rw [hb, toAsciiLowercaseByte_eq_slash heq]
  have hat : (front ++ w ++ back)[front.length + 11]? = some 0x2F := by
    rw [append_assoc, List.getElem?_append_right (by omega),
      List.getElem?_append_left (by omega), Nat.add_sub_cancel_left, hslash]
  have hwindow : ((front ++ w ++ back).drop (front.length + 11 - 11)).take
      (asciiBytes "application/sdp").length = w := by
    rw [Nat.add_sub_cancel, append_assoc, drop_left]
    exact take_left' hlength
  rw [namesSdp, List.any_eq_true]
  refine ⟨front.length + 11, mem_range.mpr ?_, ?_⟩
  · exact (List.getElem?_eq_some_iff.mp hat).1
  · rw [hat, hwindow, hname]
    simp

theorem solid_of_lowercase {c : Char} (h : toAsciiLowercase c ∈ "application/sdp".toList) :
    Solid c ∧ toAsciiLowercaseByte (charByte c) = charByte (toAsciiLowercase c) := by
  have hname : ∀ c ∈ "application/sdp".toList,
      (c.toNat < 0x80 ∧ c ≠ ' ' ∧ c ≠ '\t') ∧ toAsciiLowercaseByte (charByte c) = charByte c :=
    all_iff_forall_prop.mp (by decide)
  rw [toAsciiLowercase] at h ⊢
  split_ifs at h ⊢ with hupper
  · rw [isAsciiUppercase, Bool.and_eq_true, decide_eq_true_eq, decide_eq_true_eq] at hupper
    have hlow : 65 ≤ c.toNat := hupper.1
    have hhigh : c.toNat ≤ 90 := hupper.2
    have hbyte : (charByte c).toNat = c.toNat := by
      rw [charByte, UInt8.toNat_ofNat']
      omega
    have hchar : (Char.ofNat (c.toNat + 32)).toNat = c.toNat + 32 := by
      have hvalid : (c.toNat + 32).isValidChar := .inl (by omega)
      rw [Char.ofNat, dif_pos hvalid]
      rfl
    refine ⟨⟨by omega, ?_, ?_⟩, ?_⟩
    · rintro rfl
      exact absurd hlow (by decide)
    · rintro rfl
      exact absurd hlow (by decide)
    · rw [toAsciiLowercaseByte, if_pos, charByte, charByte, hchar]
      · apply UInt8.toNat_inj.mp
        rw [UInt8.toNat_add, UInt8.toNat_ofNat', UInt8.toNat_ofNat']
        have h32 : (32 : UInt8).toNat = 32 := rfl
        omega
      · rw [Bool.and_eq_true, decide_eq_true_eq, decide_eq_true_eq, UInt8.le_iff_toNat_le,
          UInt8.le_iff_toNat_le, hbyte]
        exact ⟨hlow, hhigh⟩
  · exact hname c h

theorem namesSdp_of_spells {s : List Char} (h : Spells payload s) (hsdp : isSdpMediaType s = true) :
    namesSdp payload = true := by
  rw [isSdpMediaType, eqIgnoreAsciiCase, beq_iff_eq] at hsdp
  have hlower : "application/sdp".toList.map toAsciiLowercase = "application/sdp".toList := by
    decide
  rw [hlower] at hsdp
  have hchars : ∀ c ∈ mediaType s, Solid c ∧
      toAsciiLowercaseByte (charByte c) = charByte (toAsciiLowercase c) := by
    intro c hc
    apply solid_of_lowercase
    rw [← hsdp]
    exact List.mem_map_of_mem hc
  apply namesSdp_of_isInfix (h _ (mediaType_isInfix s) (fun c hc => (hchars c hc).1))
  calc ((mediaType s).map charByte).map toAsciiLowercaseByte
      = ((mediaType s).map toAsciiLowercase).map charByte := by
        rw [List.map_map, List.map_map]
        exact map_congr_left (fun c hc => (hchars c hc).2)
    _ = asciiBytes "application/sdp" := by
        rw [hsdp]
        rfl

/-! ## Parts of a body -/

section Parts

variable {payload body segment : List UInt8}

theorem spells_unfoldLine {logical : List (List Char)} {raw : List Char}
    (hlogical : ∀ line ∈ logical, Spells payload line) (hraw : Spells payload raw) :
    ∀ line ∈ unfoldLine logical raw, Spells payload line := by
  have hnew : ∀ line ∈ logical ++ [raw], Spells payload line := by
    intro line hline
    rcases mem_append.mp hline with h | h
    · exact hlogical line h
    · rw [mem_singleton.mp h]
      exact hraw
  rw [unfoldLine]
  split
  · rename_i last hblank hlast
    intro line hline
    rcases mem_append.mp hline with h | h
    · exact hlogical line ((dropLast_sublist _).subset h)
    · rw [mem_singleton.mp h]
      cases raw with
      | nil => cases hblank
      | cons c rest =>
        apply Spells.append_blank (hlogical last (mem_of_getLast? hlast))
        · simpa [HeaderLines.isContinuation] using hblank
        · exact hraw.of_isInfix (suffix_cons c rest).isInfix
  · exact hnew

theorem spells_unfoldHeaderLines {headers : List Char} (h : Spells payload headers) :
    ∀ line ∈ unfoldHeaderLines headers, Spells payload line := by
  have hlines : ∀ raw ∈ textLines headers, Spells payload raw :=
    fun raw hraw => h.of_isInfix (isInfix_of_mem_textLines hraw)
  rw [unfoldHeaderLines]
  generalize textLines headers = lines at hlines
  have hstart : ∀ line ∈ ([] : List (List Char)), Spells payload line :=
    fun line hline => absurd hline not_mem_nil
  generalize ([] : List (List Char)) = logical at hstart
  induction lines generalizing logical with
  | nil => exact hstart
  | cons raw lines ih =>
    apply ih
    · exact fun r hr => hlines r (mem_cons_of_mem _ hr)
    · exact spells_unfoldLine hstart (hlines raw mem_cons_self)

theorem spells_partContentType {headers : List UInt8} {ct : List Char}
    (h : partContentType headers = some ct) : Spells headers ct := by
  obtain ⟨line, hline, hct⟩ := exists_of_findSome?_eq_some h
  have hspells := spells_unfoldHeaderLines (spells_fromUtf8Lossy headers) line hline
  split_ifs at hct
  rw [← Option.some.inj hct]
  exact hspells.of_isInfix ((trim_isInfix _).trans (drop_suffix _ _).isInfix)

theorem splitPart_isInfix (segment : List UInt8) :
    (splitPart segment).1 <:+: segment ∧ (splitPart segment).2 <:+: segment := by
  rw [splitPart]
  split_ifs
  · exact ⟨ nil_infix, (drop_suffix _ _).isInfix⟩
  · exact ⟨ nil_infix, (drop_suffix _ _).isInfix⟩
  · split
    · exact ⟨( take_prefix _ _).isInfix, (drop_suffix _ _).isInfix⟩
    · split
      · exact ⟨( take_prefix _ _).isInfix, (drop_suffix _ _).isInfix⟩
      · exact ⟨ nil_infix, infix_rfl⟩

theorem stripLineBreak_isInfix (segment : List UInt8) : stripLineBreak segment <:+: segment := by
  rw [stripLineBreak]
  split_ifs
  · exact ( take_prefix _ _).isInfix
  · exact ( dropLast_prefix _).isInfix
  · exact infix_rfl

theorem slice_isInfix (data : List UInt8) (r : ℕ × ℕ) : slice data r <:+: data :=
  (drop_suffix _ _).isInfix.trans ( take_prefix _ _).isInfix

structure PartOf (body : List UInt8) (part : MimePart) : Prop where
  contentType : ∀ ct, part.contentType = some ct → Spells body ct
  body : part.body <:+: body

theorem partOf_mimePart (h : segment <:+: body) : PartOf body (mimePart segment) := by
  obtain ⟨hheaders, hbody⟩ := splitPart_isInfix segment
  refine ⟨?_, hbody.trans h⟩
  intro ct hct
  exact (spells_partContentType hct).mono (hheaders.trans h)

variable {part : MimePart}

theorem partOf_partsBetween {lines : List DelimiterLine} (h : part ∈ partsBetween body lines) :
    PartOf body part := by
  induction lines with
  | nil => cases h
  | cons line rest ih =>
    unfold partsBetween at h
    dsimp only at h
    split_ifs at h with hclose hblank
    · cases h
    · exact ih h
    · rcases mem_cons.mp h with rfl | h
      · apply partOf_mimePart
        split
        · exact (drop_suffix _ _).isInfix
        · exact (stripLineBreak_isInfix _).trans (slice_isInfix _ _)
      · exact ih h

theorem partOf_splitMultipart {boundary : List Char} (h : part ∈ splitMultipart body boundary) :
    PartOf body part :=
  partOf_partsBetween h

end Parts

/-! ## Multipart bodies -/

theorem namesSdp_of_mem_collectParts {deeper : List Char → List UInt8 → List MimePart}
    (hbody : body <:+: payload)
    (hdeeper : ∀ ct part', ∀ body' : List UInt8, body' <:+: payload → part' ∈ deeper ct body' →
      namesSdp payload = true) (h : part ∈ collectParts deeper ct body) :
    namesSdp payload = true := by
  rw [collectParts] at h
  split at h
  · cases h
  · rename_i boundary hboundary
    obtain ⟨inner, hinner, hpart⟩ := mem_flatMap.mp h
    have hpartOf := partOf_splitMultipart hinner
    split at hpart
    · cases hpart
    · rename_i innerType htype
      split_ifs at hpart with hsdp hmultipart
      · exact namesSdp_of_spells ((hpartOf.contentType innerType htype).mono hbody) hsdp
      · exact hdeeper innerType part inner.body (hpartOf.body.trans hbody) hpart
      · cases hpart

theorem namesSdp_of_mem_collectSdpParts (levels : ℕ) (hbody : body <:+: payload)
    (h : part ∈ collectSdpParts levels ct body) : namesSdp payload = true := by
  induction levels generalizing ct body part with
  | zero =>
    apply namesSdp_of_mem_collectParts hbody _ h
    intro _ _ _ _ hmem
    cases hmem
  | succ levels ih =>
    apply namesSdp_of_mem_collectParts hbody _ h
    intro _ _ _ hbody' hmem
    exact ih hbody' hmem

/-! ## Headers of a message -/

/-- Every header that is read stands among the bytes, and so does the one that may be continued. -/
structure HeaderLines.Shown (payload : List UInt8) (lines : HeaderLines) : Prop where
  pending : Spells payload lines.pending
  headers : ∀ h ∈ lines.headers, Spells payload h.value.toList

section Headers

variable {payload : List UInt8} {lines : HeaderLines}

theorem spells_parseHeaderLine {line : List Char} {h : SipHeader} (hline : Spells payload line)
    (hparse : parseHeaderLine line = some h) : Spells payload h.value.toList := by
  rw [parseHeaderLine] at hparse
  cases hsplit : splitOnce ':' line with
  | none =>
    rw [hsplit] at hparse
    cases hparse
  | some pair =>
    obtain ⟨name, value⟩ := pair
    rw [hsplit] at hparse
    dsimp only at hparse
    split_ifs at hparse
    rw [← Option.some.inj hparse, String.toList_ofList]
    exact hline.of_isInfix ((trim_isInfix value).trans (isInfix_of_splitOnce hsplit))

theorem HeaderLines.Shown.flush (h : lines.Shown payload) : lines.flush.Shown payload := by
  rw [HeaderLines.flush]
  by_cases hempty : lines.pending.isEmpty = true
  · rw [if_pos hempty]
    exact ⟨spells_nil, h.headers⟩
  · rw [if_neg hempty]
    cases hparse : parseHeaderLine lines.pending with
    | none => exact ⟨spells_nil, h.headers⟩
    | some hdr =>
      split_ifs with hroom
      · refine ⟨spells_nil, ?_⟩
        intro x hx
        rcases mem_append.mp hx with hx | hx
        · exact h.headers x hx
        · rw [mem_singleton.mp hx]
          exact spells_parseHeaderLine h.pending hparse
      · exact ⟨spells_nil, h.headers⟩

theorem HeaderLines.Shown.line (h : lines.Shown payload) {text : List Char}
    (htext : Spells payload text) : (lines.line text).Shown payload := by
  rw [HeaderLines.line]
  dsimp only
  split_ifs with hcont hroom hlong
  · refine ⟨?_, h.headers⟩
    exact h.pending.append_blank (.inl rfl) (htext.of_isInfix (trimStart_suffix text).isInfix)
  · exact ⟨h.pending, h.headers⟩
  · exact ⟨h.flush.pending, h.flush.headers⟩
  · exact ⟨htext, h.flush.headers⟩

theorem HeaderLines.Shown.lineBytes (h : lines.Shown payload) {bytes : List UInt8}
    (hbytes : bytes <:+: payload) : (lines.lineBytes bytes).Shown payload := by
  rw [HeaderLines.lineBytes]
  split
  · rename_i text hdecode
    exact h.line ((spells_of_decode hdecode).mono hbytes)
  · exact ⟨h.pending, h.headers⟩

theorem HeaderLines.Shown.headerLoop (h : lines.Shown payload) {rest : List UInt8}
    (hrest : rest <:+: payload) (n pos : ℕ) :
    (headerLoop n pos rest lines).1.Shown payload := by
  induction n generalizing pos rest lines with
  | zero => exact h
  | succ n ih =>
    rw [Sipnab.headerLoop]
    split_ifs with hempty
    · exact h
    · split
      · split
        · rename_i remainder hdecode
          have hline := h.line ((spells_of_decode hdecode).mono hrest)
          exact ⟨hline.pending, hline.headers⟩
        · exact ⟨h.pending, h.headers⟩
      · rename_i crlfOffset hcrlf
        split_ifs with hblank
        · exact h
        · exact ih (h.lineBytes (( take_prefix _ _).isInfix.trans hrest))
            ((drop_suffix _ _).isInfix.trans hrest) _

theorem shown_headerLines (limits : ParserLimits) (data : List UInt8) (start : ℕ) :
    (headerLines limits data start).1.Shown data := by
  have hstart : HeaderLines.Shown data { limits } :=
    ⟨spells_nil, fun h hmem => absurd hmem not_mem_nil⟩
  exact (hstart.headerLoop (drop_suffix start data).isInfix data.length start).flush

end Headers

/-! ## The body of a message -/

theorem findInfix_of_drop {α : Type*} [DecidableEq α] {pattern xs : List α} {d k : ℕ}
    (hd : d ≤ xs.length) (hearly : ∀ j < d, ¬ pattern <+: xs.drop j)
    (h : findInfix pattern (xs.drop d) = some k) : findInfix pattern xs = some (d + k) := by
  obtain ⟨hle, hfound, hfirst⟩ := findInfix_eq_some_iff.mp h
  rw [length_drop] at hle
  rw [drop_drop] at hfound
  refine findInfix_eq_some_iff.mpr ⟨by omega, hfound, ?_⟩
  intro j hj
  by_cases hlt : j < d
  · exact hearly j hlt
  · have hnot := hfirst (j - d) (by omega)
    rw [drop_drop, Nat.add_sub_cancel' (by omega)] at hnot
    exact hnot

theorem not_blank_before {j : ℕ} (h : findCrlf xs = some off) (hj : j < off) :
    ¬ [cr, lf, cr, lf] <+: xs.drop j := by
  intro hblank
  obtain ⟨-, -, hfirst⟩ := findInfix_eq_some_iff.mp h
  exact hfirst j hj ((prefix_append [cr, lf] [cr, lf]).trans hblank)

theorem drop_of_findCrlf (h : findCrlf xs = some off) :
    xs.drop off = cr :: lf :: xs.drop (off + 2) := by
  obtain ⟨-, ⟨rest, hrest⟩, -⟩ := findInfix_eq_some_iff.mp h
  rw [← drop_drop, ← hrest]
  rfl

theorem headerLoop_bodyStart {n pos : ℕ} {rest : List UInt8} {lines : HeaderLines}
    (h : (headerLoop n pos rest lines).2 = some bodyStart) :
    ∃ k, findInfix [cr, lf, cr, lf] (cr :: lf :: rest) = some k ∧ bodyStart = pos + k + 2 := by
  induction n generalizing pos rest lines with
  | zero => cases h
  | succ n ih =>
    rw [headerLoop] at h
    split_ifs at h with hempty
    split at h
    · cases h
    · rename_i off hcrlf
      have hdrop := drop_of_findCrlf hcrlf
      split_ifs at h with hzero
      · refine ⟨0, ?_, (Option.some.inj h).symm⟩
        rw [hzero, drop_zero] at hdrop
        rw [hdrop, findInfix, if_pos (by simp)]
      · obtain ⟨k, hk, rfl⟩ := ih h
        refine ⟨off + 2 + k, ?_, by omega⟩
        have hle := (findInfix_eq_some_iff.mp hcrlf).1
        apply findInfix_of_drop
        · rw [length_cons, length_cons]
          omega
        · intro j hj
          obtain _ | _ | j := j
          · intro hblank
            obtain ⟨-, -, hfirst⟩ := findInfix_eq_some_iff.mp hcrlf
            rw [drop_zero, cons_prefix_cons, cons_prefix_cons] at hblank
            exact hfirst 0 (Nat.pos_of_ne_zero hzero) hblank.2.2
          · intro hblank
            exact absurd (cons_prefix_cons.mp hblank).1 (by decide)
          · rw [drop_succ_cons, drop_succ_cons]
            exact not_blank_before hcrlf (by omega)
        · rw [show off + 2 = off + 1 + 1 from rfl, drop_succ_cons, drop_succ_cons, hdrop]
          exact hk

theorem headerLines_bodyStart {limits : ParserLimits} {data : List UInt8} {firstCrlf : ℕ}
    (hfirst : findCrlf data = some firstCrlf)
    (h : (headerLines limits data (firstCrlf + 2)).2 = some bodyStart) :
    ∃ at', findInfix [cr, lf, cr, lf] data = some at' ∧ bodyStart = at' + 4 := by
  obtain ⟨k, hk, hbody⟩ := headerLoop_bodyStart h
  rw [← drop_of_findCrlf hfirst] at hk
  have hle := (findInfix_eq_some_iff.mp hfirst).1
  refine ⟨firstCrlf + k, findInfix_of_drop hle (fun j hj => not_blank_before hfirst hj) hk, ?_⟩
  omega

/-! ## What the dispatcher sees -/

section Prefilter

variable {σ : Type*} {parseSdp : List UInt8 → Option σ} {limits : ParserLimits}
  {payload : List UInt8} {captured : Captured} {msg : ParsedMessage}

section

variable (h : parseSipBytes limits payload captured = .ok msg)
include h

theorem spells_contentType {ct : String} (hct : msg.contentType = some ct) :
    Spells payload ct.toList := by
  obtain ⟨firstCrlf, -, hheaders, -⟩ := parseSipBytes_cases h
  obtain ⟨hdr, hfind, rfl⟩ := Option.map_eq_some_iff.mp hct
  have hmem := mem_of_find?_eq_some hfind
  rw [hheaders] at hmem
  exact (shown_headerLines limits payload (firstCrlf + 2)).headers hdr hmem

theorem body_isInfix : msg.body <:+: payload := by
  obtain ⟨firstCrlf, -, -, hbody⟩ := parseSipBytes_cases h
  rw [hbody]
  cases (parseHeadersAndBody limits payload (firstCrlf + 2)).2.1 with
  | none => exact nil_infix
  | some r => exact slice_isInfix payload r

theorem bodyStartsSdp_of_body (hbody : (asciiBytes "v=").isPrefixOf msg.body = true) :
    bodyStartsSdp payload = true := by
  obtain ⟨firstCrlf, hfirst, -, heq⟩ := parseSipBytes_cases h
  rw [heq, isPrefixOf_iff_prefix] at hbody
  cases hrange : (parseHeadersAndBody limits payload (firstCrlf + 2)).2.1 with
  | none =>
    rw [hrange] at hbody
    exact absurd (prefix_nil.mp hbody) (by decide)
  | some r =>
    rw [hrange] at hbody
    obtain ⟨at', hat, hstart⟩ := headerLines_bodyStart hfirst (parseHeadersAndBody_body hrange)
    have hisPrefix : asciiBytes "v=" <+: payload.drop (at' + 4) := by
      apply hbody.trans
      rw [← hstart]
      exact List.IsPrefix.drop ( take_prefix _ _) _
    rw [bodyStartsSdp, hat]
    rw [Option.any_some, isPrefixOf_iff_prefix]
    exact hisPrefix

end

/-- The bytes of a message with SDP show it, and the other workers get a copy of them. -/
theorem sdp_seen_by_dispatcher {session : σ} (hstarts : startsSipMessage payload = true)
    (hparse : parseSipBytes limits payload captured = .ok msg)
    (hsdp : msg.toSipMessage.sdp parseSdp = some session) :
    (namesSdp payload || bodyStartsSdp payload) = true ∧
      ∀ (fanout : Fanout) (srcPort dstPort : ℕ), fanout.enabled = true →
        portInRange srcPort dstPort fanout.portrange = true →
        fanout.copyReadUdp srcPort dstPort payload = some .shared := by
  have hseen : (namesSdp payload || bodyStartsSdp payload) = true := by
    rw [Bool.or_eq_true]
    rw [SipMessage.sdp] at hsdp
    cases hct : msg.contentType with
    | none =>
      rw [hct] at hsdp
      dsimp only at hsdp
      split_ifs at hsdp with hbody
      exact .inr (bodyStartsSdp_of_body hparse hbody)
    | some ct =>
      rw [hct] at hsdp
      dsimp only at hsdp
      split_ifs at hsdp with htype hmultipart
      · exact .inl (namesSdp_of_spells (spells_contentType hparse hct) htype)
      · obtain ⟨part, hpart, -⟩ := exists_of_findSome?_eq_some hsdp
        exact .inl (namesSdp_of_mem_collectSdpParts _ (body_isInfix hparse) hpart)
  refine ⟨hseen, ?_⟩
  intro fanout srcPort dstPort henabled hport
  rw [Fanout.copyReadUdp, henabled, hport, hstarts, hseen]
  simp

end Prefilter

/-- A request with the compact name of its content type, in mixed case. -/
def mixedCaseInvite : List UInt8 :=
  asciiBytes "INVITE sip:b SIP/2.0\r\nc: Application/SDP;a=b\r\n\r\nv=0\r\n"

/-- A body of a version line alone is a session without media. -/
def versionOnly (body : List UInt8) : Option Unit :=
  if body = asciiBytes "v=0\r\n" then some () else none

theorem sdp_seen_by_dispatcher_mixedCaseInvite :
    (namesSdp mixedCaseInvite || bodyStartsSdp mixedCaseInvite) = true ∧
      Fanout.copyReadUdp ⟨true, (5060, 5061), false⟩ 5060 40000 mixedCaseInvite = some .shared := by
  obtain ⟨msg, hparse, hsdp⟩ : ∃ msg, parseSipBytes {} mixedCaseInvite
      ⟨0, .v4 0x0A000001, .v4 0x0A000002, 5060, 40000⟩ = .ok msg ∧
        msg.toSipMessage.sdp versionOnly = some () :=
    ⟨_, rfl, by decide +kernel⟩
  obtain ⟨hseen, hcopy⟩ := sdp_seen_by_dispatcher (by decide +kernel) hparse hsdp
  exact ⟨hseen, hcopy ⟨true, (5060, 5061), false⟩ 5060 40000 rfl rfl⟩

end Sipnab
