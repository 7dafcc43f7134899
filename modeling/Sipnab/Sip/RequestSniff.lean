import Sipnab.Sip.FramingAgreement

/-!
# The sniffer and the parser on request lines

Whether some bytes open a request is asked twice: by the sniffer, on the bytes of the first line, and
by the parser, on its text. The sniffer takes the line as it is; the parser drops blanks in front and
one line end character behind, and knows more blanks than the sniffer does.
-/

namespace Sipnab

open Text List Option Utf8

def firstLineText (data : List UInt8) : Option (List Char) :=
  (findCrlf data).bind (fun firstCrlf => Utf8.decode (data.take firstCrlf))

def strippedLine (line : List Char) : List Char :=
  let line := trimStart line
  if line.getLast? = some '\r' ∨ line.getLast? = some '\n' then line.dropLast else line

def versionText : List Char := " SIP/2.0".toList

def isMethodChar (c : Char) : Bool := decide (c.toNat < 0x80) && isTokenByte (UInt8.ofNat c.toNat)

/-- A token of at most `maxMethodLen` bytes; a token character is one byte. -/
def isMethodToken (method : List Char) : Bool :=
  !method.isEmpty && decide (method.length ≤ maxMethodLen) && method.all isMethodChar

def startsBlank (data : List UInt8) : Bool :=
  data.head?.any (fun b => decide (b < 0x80) && isWhitespace (Utf8.ofByte b))

/-- What the sniffer takes for a request, the parser reads as one, with its method and a URI. -/
def ParsedAsSniffed (limits : ParserLimits) (captured : Captured) (data : List UInt8) : Prop :=
  startsSipMessage data = true → (asciiBytes "SIP/2.0 ").isPrefixOf data = false →
    ∀ line, firstLineText data = some line →
      ∃ msg method uri, parseSipBytes limits data captured = .ok msg ∧ msg.isRequest = true ∧
        msg.method = some method ∧
        Utf8.decode (data.takeWhile (· ≠ 32)) = some method.asStr.toList ∧
        msg.requestUri = some uri ∧ uri ≠ ""

/-- What the parser reads as a request with a token for its method, the sniffer takes for one. -/
def SniffedAsParsed (limits : ParserLimits) (captured : Captured) (data : List UInt8) : Prop :=
  ∀ msg method, parseSipBytes limits data captured = .ok msg → msg.isRequest = true →
    msg.method = some method → isMethodToken method.asStr.toList = true →
    startsBlank data = false → startsSipMessage data = true

/-! ## The parser -/

theorem not_mem_versionText : ' ' ∉ "SIP/2.0".toList := by decide

theorem beforeLastBlank_version (uri : List Char) :
    beforeLastBlank (uri ++ versionText) = some uri := by
  have hreverse : (uri ++ versionText).reverse = "0.2/PIS".toList ++ ' ' :: uri.reverse := by
    rw [reverse_append]
    rfl
  rw [beforeLastBlank, hreverse, splitOnce_append_cons (by decide), map_some, reverse_reverse]

theorem append_blank_inj {a a' b b' : List Char} (ha : ' ' ∉ a) (ha' : ' ' ∉ a')
    (h : a ++ ' ' :: b = a' ++ ' ' :: b') : a = a' ∧ b = b' := by
  have hsplit := splitOnce_append_cons ha b
  rw [h, splitOnce_append_cons ha'] at hsplit
  obtain ⟨rfl, rfl⟩ := Prod.mk.inj (some.inj hsplit)
  exact ⟨rfl, rfl⟩

theorem eq_append_of_isPrefixOf? {w s rest : List Char} (h : w.isPrefixOf? s = some rest) :
    s = w ++ rest := by
  induction w generalizing s with
  | nil => exact some.inj h
  | cons c w ih =>
    cases s with
    | nil => cases h
    | cons d s =>
      rw [List.isPrefixOf?] at h
      split_ifs at h with heq
      rw [ih h, eq_of_beq heq]
      rfl

theorem strippedLine_eq (line : List Char) :
    (if (trimStart line).getLast? = some '\r' ∨ (trimStart line).getLast? = some '\n' then
      (trimStart line).dropLast else trimStart line) = strippedLine line := rfl

variable {method : List Char} {c : Char}

theorem parseFirstLine_request {line uri : List Char} (hmethod : ' ' ∉ method)
    (hversion : method ≠ "SIP/2.0".toList)
    (h : strippedLine line = method ++ ' ' :: (uri ++ versionText)) :
    parseFirstLine line = .ok { isRequest := true
                                method := some (SipMethod.parse (String.ofList method))
                                statusCode := none
                                reason := none
                                requestUri := some (String.ofList (trim uri)) } := by
  have hprefix : "SIP/2.0 ".toList.isPrefixOf? (strippedLine line) = none := by
    cases hrest : "SIP/2.0 ".toList.isPrefixOf? (strippedLine line) with
    | none => rfl
    | some rest =>
      have hline := eq_append_of_isPrefixOf? hrest
      rw [h] at hline
      have hsplit : method ++ ' ' :: (uri ++ versionText) = "SIP/2.0".toList ++ ' ' :: rest := by
        rw [hline]
        rfl
      exact absurd (append_blank_inj hmethod not_mem_versionText hsplit).1 hversion
  have hsuffix : " SIP/2.0".toList.isSuffixOf (strippedLine line) = true := by
    rw [isSuffixOf_iff_suffix, h]
    exact ⟨method ++ ' ' :: uri, append_assoc _ _ _⟩
  rw [parseFirstLine]
  dsimp only
  rw [strippedLine_eq, hprefix]
  dsimp only
  rw [if_pos hsuffix, h, splitOnce_append_cons hmethod]
  dsimp only
  rw [beforeLastBlank_version]

theorem exists_request_of_parseFirstLine {line : List Char} {first : FirstLine}
    (h : parseFirstLine line = .ok first) (hrequest : first.isRequest = true) :
    ∃ method uri, strippedLine line = method ++ ' ' :: (uri ++ versionText) ∧ ' ' ∉ method ∧
      first.method = some (SipMethod.parse (String.ofList method)) ∧
      first.requestUri = some (String.ofList (trim uri)) := by
  rw [parseFirstLine] at h
  dsimp only at h
  rw [strippedLine_eq] at h
  split at h
  · split at h
    · cases h
    · cases h
      cases hrequest
  · split_ifs at h with hsuffix
    split at h
    · cases h
    · rename_i method rest hsplit
      split at h
      · cases h
      · rename_i uri huri
        cases h
        obtain ⟨hline, hmethod⟩ := eq_append_of_splitOnce hsplit
        refine ⟨method, uri, ?_, hmethod, rfl, rfl⟩
        rw [beforeLastBlank] at huri
        obtain ⟨⟨last, before⟩, hcut, hbefore⟩ := map_eq_some_iff.mp huri
        obtain ⟨hreverse, hlast⟩ := eq_append_of_splitOnce hcut
        have hrest : rest = uri ++ ' ' :: last.reverse := by
          rw [← reverse_reverse rest, hreverse, ← hbefore]
          simp
        -- Both the version and the last piece stand behind the last blank.
        obtain ⟨pre, hpre⟩ := isSuffixOf_iff_suffix.mp hsuffix
        have hends : pre ++ ' ' :: "SIP/2.0".toList = (method ++ ' ' :: uri) ++ ' ' :: last.reverse := by
          rw [append_assoc, cons_append, ← hrest, ← hline]
          exact hpre
        have hflip := congrArg List.reverse hends
        rw [reverse_append, reverse_append, reverse_cons, reverse_cons,
          append_assoc, append_assoc, singleton_append, singleton_append,
          reverse_reverse] at hflip
        have hversion := (append_blank_inj (by decide) hlast hflip).1
        rw [hline, hrest, ← hversion]
        rfl

/-! ## The sniffer -/

/-- The bytes of a request line: a method of token bytes, a URI that is not blank, the version. -/
structure SniffedLine (line method uri : List UInt8) : Prop where
  split : line = method ++ 32 :: (uri ++ asciiBytes " SIP/2.0")
  named : method ≠ []
  short : method.length ≤ maxMethodLen
  token : ∀ b ∈ method, isTokenByte b = true
  addressed : uri.all isAsciiWhitespace = false

theorem takeWhile_token {method tail : List UInt8} (hshort : method.length ≤ maxMethodLen)
    (htoken : ∀ b ∈ method, isTokenByte b = true) :
    ((method ++ 32 :: tail).take maxMethodLen).takeWhile isTokenByte = method := by
  have hblank : isTokenByte 32 = false := by decide
  rw [take_append, take_of_length_le hshort, takeWhile_append_of_pos htoken]
  cases hrest : maxMethodLen - method.length with
  | zero => simp
  | succ n =>
    rw [take_succ_cons, takeWhile_cons_of_neg (by rw [hblank]; exact Bool.false_ne_true),
      append_nil]

theorem startsSipMessage_iff {data : List UInt8}
    (hnot : (asciiBytes "SIP/2.0 ").isPrefixOf data = false) :
    startsSipMessage data = true ↔
      ∃ k method uri, findCrlf data = some k ∧ SniffedLine (data.take k) method uri := by
  have hversion : (asciiBytes " SIP/2.0").length = 8 := rfl
  constructor
  · intro h
    rw [startsSipMessage, hnot, if_neg Bool.false_ne_true] at h
    dsimp only at h
    split_ifs at h with hlen hmethod
    · rw [not_or, not_not] at hmethod
      obtain ⟨hnamed, hblank⟩ := hmethod
      cases hk : findCrlf data with
      | none =>
        rw [hk] at h
        cases h
      | some k =>
        rw [hk] at h
        dsimp only at h
        split_ifs at h with hsuffix
        rw [Bool.not_eq_true, Bool.not_eq_false', isSuffixOf_iff_suffix] at hsuffix
        obtain ⟨pre, hpre⟩ := hsuffix
        rw [Bool.and_eq_true, decide_eq_true_eq, ← hpre, length_append, hversion,
          Nat.add_sub_cancel, take_left' rfl] at h
        obtain ⟨hle, huri⟩ := h
        generalize hmethod : (data.take maxMethodLen).takeWhile isTokenByte = method at *
        have hprefix : method <+: data := by
          rw [← hmethod]
          exact ( takeWhile_prefix _).trans ( take_prefix _ _)
        have hpreData : pre <+: data := by
          refine List.IsPrefix.trans ?_ ( take_prefix k data)
          rw [← hpre]
          exact prefix_append _ _
        obtain ⟨rest, rfl⟩ := prefix_of_prefix_length_le hprefix hpreData (by omega)
        cases rest with
        | nil =>
          rw [append_nil] at hle
          omega
        | cons b uri =>
          obtain ⟨tail, htail⟩ := hpreData
          have hb : b = 32 := by
            rw [← htail, append_assoc, List.getElem?_append_right (Nat.le_refl _),
              Nat.sub_self] at hblank
            exact some.inj hblank
          subst hb
          have hdrop : (method ++ 32 :: uri).drop (method.length + 1) = uri := by
            rw [append_cons, drop_left' (by simp)]
          rw [hdrop] at huri
          refine ⟨k, method, uri, rfl, ?_, ?_, ?_, ?_, by simpa using huri⟩
          · rw [← hpre]
            simp
          · exact fun hnil => hnamed (by rw [hnil]; rfl)
          · rw [← hmethod]
            exact ( takeWhile_prefix _).length_le.trans (length_take_le _ _)
          · intro b hmem
            rw [← hmethod] at hmem
            exact mem_takeWhile_imp hmem
  · rintro ⟨k, method, uri, hk, hline⟩
    have hdata : data = method ++ 32 :: (uri ++ asciiBytes " SIP/2.0" ++ data.drop k) := by
      conv_lhs => rw [← take_append_drop k data, hline.split]
      simp
    have hlength : (data.take k).length = method.length + 1 + uri.length + 8 := by
      rw [hline.split]
      simp only [length_append, length_cons, hversion]
      omega
    have hlong : ¬ data.length < 8 := by
      have hle := length_take_le k data
      have hle' := length_take_le' k data
      omega
    have hmethod : (data.take maxMethodLen).takeWhile isTokenByte = method := by
      rw [hdata]
      exact takeWhile_token hline.short hline.token
    have hblank : data[method.length]? = some 32 := by
      conv_lhs => rw [hdata]
      rw [List.getElem?_append_right (Nat.le_refl _), Nat.sub_self]
      rfl
    have hsuffix : (asciiBytes " SIP/2.0").isSuffixOf (data.take k) = true := by
      rw [isSuffixOf_iff_suffix, hline.split]
      exact ⟨method ++ 32 :: uri, append_assoc _ _ _⟩
    have huri : ((data.take k).take ((data.take k).length - 8)).drop (method.length + 1) = uri := by
      have hcut : (data.take k).length - 8 = (method ++ 32 :: uri).length := by
        rw [hlength]
        simp
        omega
      rw [hcut, hline.split, ← cons_append, ← append_assoc, take_left' rfl,
        append_cons, drop_left' (by simp)]
    rw [startsSipMessage, if_neg hlong, hnot, if_neg Bool.false_ne_true]
    dsimp only
    rw [hmethod, if_neg, hk]
    · dsimp only
      rw [hsuffix, huri, hline.addressed]
      simp only [Bool.not_true, Bool.false_eq_true, if_false, Bool.not_false, Bool.and_true,
        decide_eq_true_eq]
      omega
    · rw [not_or, not_not]
      refine ⟨?_, hblank⟩
      rw [length_eq_zero_iff]
      exact hline.named

/-! ## Bytes and text of a request line -/

theorem token_facts {b : UInt8} (h : isTokenByte b = true) :
    b < 0x80 ∧ b ≠ 32 ∧ isWhitespace (Utf8.ofByte b) = false := by
  have hall : ∀ n : Fin 256, isTokenByte (UInt8.ofNat n) = true →
      UInt8.ofNat n < 0x80 ∧ UInt8.ofNat n ≠ 32 ∧
        isWhitespace (Utf8.ofByte (UInt8.ofNat n)) = false := by
    decide +kernel
  have hb := hall ⟨b.toNat, b.toNat_lt⟩
  rw [UInt8.ofNat_toNat] at hb
  exact hb h

theorem isMethodChar_ofByte {b : UInt8} (h : isTokenByte b = true) :
    isMethodChar (Utf8.ofByte b) = true := by
  have hlow : (Utf8.ofByte b).toNat < 0x80 := by
    rw [toNat_ofByte]
    exact (token_facts h).1
  rw [isMethodChar, ofNat_toNat_ofByte, decide_eq_true hlow, h]
  rfl

theorem toNat_lt_of_isMethodChar (h : isMethodChar c = true) : c.toNat < 0x80 := by
  rw [isMethodChar, Bool.and_eq_true, decide_eq_true_eq] at h
  exact h.1

theorem ofByte_of_isMethodChar (h : isMethodChar c = true) :
    Utf8.ofByte (UInt8.ofNat c.toNat) = c := by
  have hlow := toNat_lt_of_isMethodChar h
  rw [← Char.toNat_inj, toNat_ofByte, UInt8.toNat_ofNat_of_lt' (hlow.trans (by decide))]

theorem not_isWhitespace_of_isMethodChar (h : isMethodChar c = true) : isWhitespace c = false := by
  rw [← ofByte_of_isMethodChar h]
  rw [isMethodChar, Bool.and_eq_true] at h
  exact (token_facts h.2).2.2

theorem isMethodToken_iff : isMethodToken method = true ↔
    method ≠ [] ∧ method.length ≤ maxMethodLen ∧ ∀ c ∈ method, isMethodChar c = true := by
  rw [isMethodToken, Bool.and_eq_true, Bool.and_eq_true, decide_eq_true_eq, List.all_eq_true,
    Bool.not_eq_true', isEmpty_eq_false_iff, and_assoc]

theorem not_mem_of_isMethodToken (h : isMethodToken method = true) : ' ' ∉ method := by
  intro hmem
  have hblank := (isMethodToken_iff.mp h).2.2 ' ' hmem
  exact absurd hblank (by decide)

theorem strippedLine_request (h : isMethodToken method = true) (uri : List Char) :
    strippedLine (method ++ ' ' :: (uri ++ versionText)) = method ++ ' ' :: (uri ++ versionText) := by
  obtain ⟨hne, -, htoken⟩ := isMethodToken_iff.mp h
  have hstart : trimStart (method ++ ' ' :: (uri ++ versionText)) =
      method ++ ' ' :: (uri ++ versionText) := by
    cases method with
    | nil => exact absurd rfl hne
    | cons c method =>
      rw [trimStart, cons_append, dropWhile_cons_of_neg]
      rw [not_isWhitespace_of_isMethodChar (htoken c mem_cons_self)]
      exact Bool.false_ne_true
  have hlast : (method ++ ' ' :: (uri ++ versionText)).getLast? = some '0' := by
    rw [← cons_append, ← append_assoc, List.getLast?_append]
    rfl
  rw [strippedLine, hstart, hlast]
  rfl

namespace SniffedLine

variable {line method uri : List UInt8} {text : List Char}

theorem token_text (h : SniffedLine line method uri) :
    isMethodToken (method.map Utf8.ofByte) = true := by
  refine isMethodToken_iff.mpr ⟨?_, ?_, ?_⟩
  · simpa using h.named
  · simpa using h.short
  · intro c hmem
    obtain ⟨b, hb, rfl⟩ := List.mem_map.mp hmem
    exact isMethodChar_ofByte (h.token b hb)

theorem decode_method (h : SniffedLine line method uri) :
    Utf8.decode method = some (method.map Utf8.ofByte) :=
  decode_low (fun b hb => (token_facts (h.token b hb)).1)

theorem text_eq (h : SniffedLine line method uri) (hdecode : Utf8.decode line = some text) :
    ∃ uriText, Utf8.decode uri = some uriText ∧
      text = method.map Utf8.ofByte ++ ' ' :: (uriText ++ versionText) := by
  have hversion : Utf8.decode (asciiBytes "SIP/2.0") = some "SIP/2.0".toList := by decide
  have hrest : Utf8.decode (uri ++ asciiBytes " SIP/2.0") =
      (Utf8.decode uri).map (fun uriText => uriText ++ versionText) := by
    show Utf8.decode (uri ++ 32 :: asciiBytes "SIP/2.0") = _
    rw [decode_append_cons (by decide), hversion]
    cases Utf8.decode uri <;> rfl
  rw [h.split, decode_append_cons (by decide), h.decode_method, hrest, bind_some] at hdecode
  cases huri : Utf8.decode uri with
  | none =>
    rw [huri] at hdecode
    cases hdecode
  | some uriText =>
    rw [huri] at hdecode
    exact ⟨uriText, rfl, (some.inj hdecode).symm⟩

end SniffedLine

theorem exists_sniffedLine {line : List UInt8} {uri : List Char}
    (hdecode : Utf8.decode line = some (method ++ ' ' :: (uri ++ versionText)))
    (hmethod : isMethodToken method = true) (huri : trim uri ≠ []) :
    ∃ methodBytes uriBytes, SniffedLine line methodBytes uriBytes := by
  obtain ⟨hne, hshort, htoken⟩ := isMethodToken_iff.mp hmethod
  obtain ⟨rest, rfl, hrest⟩ := exists_low_of_decode
    (fun c hc => toNat_lt_of_isMethodChar (htoken c hc)) hdecode
  have hblank : Utf8.decode rest = some ([' '] ++ (uri ++ versionText)) := hrest
  obtain ⟨tail, rfl, htail⟩ := exists_low_of_decode (all_iff_forall_prop.mp (by decide)) hblank
  have hversion : Utf8.decodeFrom none tail = some (uri ++ ' ' :: "SIP/2.0".toList) := htail
  obtain ⟨uriBytes, last, rfl, huriBytes, hlast⟩ := exists_split_of_decodeFrom (by decide) hversion
  have hall : Utf8.decode last = some ("SIP/2.0".toList ++ []) := hlast
  obtain ⟨nothing, rfl, hnothing⟩ := exists_low_of_decode (all_iff_forall_prop.mp (by decide)) hall
  rw [eq_nil_of_decode hnothing]
  refine ⟨_, uriBytes, rfl, ?_, ?_, ?_, ?_⟩
  · simpa using hne
  · simpa using hshort
  · intro b hb
    obtain ⟨c, hc, rfl⟩ := List.mem_map.mp hb
    have hchar := htoken c hc
    rw [isMethodChar, Bool.and_eq_true] at hchar
    exact hchar.2
  · -- blank bytes would be blank text
    by_contra hall
    rw [Bool.not_eq_false, List.all_eq_true] at hall
    refine huri (trim_eq_nil_iff.mpr ?_)
    have hascii : ∀ n : Fin 256, isAsciiWhitespace (UInt8.ofNat n) = true →
        UInt8.ofNat n < 0x80 ∧ isWhitespace (Utf8.ofByte (UInt8.ofNat n)) = true := by
      decide +kernel
    have hbytes : ∀ b ∈ uriBytes, b < 0x80 ∧ isWhitespace (Utf8.ofByte b) = true := by
      intro b hb
      have hb' := hall b hb
      have hfin := hascii ⟨b.toNat, b.toNat_lt⟩
      rw [UInt8.ofNat_toNat] at hfin
      exact hfin hb'
    have hlow := decode_low (fun b hb => (hbytes b hb).1)
    rw [Utf8.decode, huriBytes] at hlow
    intro c hc
    rw [some.inj hlow] at hc
    obtain ⟨b, hb, rfl⟩ := List.mem_map.mp hc
    exact (hbytes b hb).2

/-! ## Agreement -/

section Message

variable {limits : ParserLimits} {data : List UInt8} {captured : Captured} {line : List Char}

theorem parseSipBytes_of_first (limits : ParserLimits) (captured : Captured) {first : FirstLine}
    (hline : firstLineText data = some line) (hfirst : parseFirstLine line = .ok first) :
    ∃ msg, parseSipBytes limits data captured = .ok msg ∧ msg.isRequest = first.isRequest ∧
      msg.method = first.method ∧ msg.requestUri = first.requestUri := by
  obtain ⟨k, hk, hdecode⟩ := bind_eq_some_iff.mp hline
  have hne : ¬ data.isEmpty = true := by
    have hlength := length_le_of_findInfix hk
    rw [List.isEmpty_iff, ← length_eq_zero_iff]
    simp only [length_cons, length_nil] at hlength
    omega
  rw [parseSipBytes, if_neg hne, hk]
  dsimp only
  rw [hdecode]
  dsimp only
  rw [hfirst]
  exact ⟨_, rfl, rfl, rfl, rfl⟩

theorem exists_first_of_parseSipBytes {msg : ParsedMessage}
    (h : parseSipBytes limits data captured = .ok msg) :
    ∃ line first, firstLineText data = some line ∧ parseFirstLine line = .ok first ∧
      msg.isRequest = first.isRequest ∧ msg.method = first.method ∧
      msg.requestUri = first.requestUri := by
  rw [parseSipBytes] at h
  split_ifs at h with hempty
  split at h
  · cases h
  · rename_i k hk
    split at h
    · cases h
    · rename_i text hdecode
      cases hfirst : parseFirstLine text with
      | error e =>
        rw [hfirst] at h
        cases h
      | ok first =>
        rw [hfirst] at h
        cases h
        exact ⟨text, first, by rw [firstLineText, hk]; exact hdecode, hfirst, rfl, rfl, rfl⟩

variable {method : List Char}

theorem not_isPrefixOf_of_request {uri : List Char} (hline : firstLineText data = some line)
    (hstripped : strippedLine line = method ++ ' ' :: (uri ++ versionText))
    (hmethod : isMethodToken method = true) : (asciiBytes "SIP/2.0 ").isPrefixOf data = false := by
  by_contra hprefix
  rw [Bool.not_eq_false, isPrefixOf_iff_prefix] at hprefix
  obtain ⟨tail, rfl⟩ := hprefix
  obtain ⟨k, hk, hdecode⟩ := bind_eq_some_iff.mp hline
  have hlong : 8 ≤ k := by
    by_contra hshort
    obtain ⟨-, hhere, -⟩ := findInfix_eq_some_iff.mp hk
    have hcr : (asciiBytes "SIP/2.0 " ++ tail)[k]? = some cr := by
      obtain ⟨more, hmore⟩ := hhere
      rw [← List.head?_drop, ← hmore]
      rfl
    rw [List.getElem?_append_left (by show k < 8; omega)] at hcr
    have hnone : ∀ i < 8, (asciiBytes "SIP/2.0 ")[i]? ≠ some cr := by decide
    exact hnone k (by omega) hcr
  have htake : (asciiBytes "SIP/2.0 " ++ tail).take k =
      asciiBytes "SIP/2.0" ++ 32 :: tail.take (k - 8) := by
    rw [take_append, take_of_length_le (show (asciiBytes "SIP/2.0 ").length ≤ k from hlong)]
    rfl
  have hversion : Utf8.decode (asciiBytes "SIP/2.0") = some "SIP/2.0".toList := by decide
  rw [htake, decode_append_cons (by decide), hversion, bind_some, map_eq_some_iff] at hdecode
  obtain ⟨rest, -, rfl⟩ := hdecode
  have hstart : trimStart ("SIP/2.0".toList ++ ' ' :: rest) = "SIP/2.0".toList ++ ' ' :: rest := rfl
  have hshape : ∃ rest', strippedLine ("SIP/2.0".toList ++ ' ' :: rest) =
      "SIP/2.0".toList ++ ' ' :: rest' := by
    rw [strippedLine, hstart]
    split_ifs with hlast
    · cases rest with
      | nil =>
        rcases hlast with hlast | hlast <;> exact absurd hlast (by decide)
      | cons c rest =>
        refine ⟨(c :: rest).dropLast, ?_⟩
        rw [dropLast_append_of_ne_nil (by simp), dropLast_cons_of_ne_nil (by simp)]
    · exact ⟨rest, rfl⟩
  obtain ⟨rest', hrest'⟩ := hshape
  have hsplit : method ++ ' ' :: (uri ++ versionText) = "SIP/2.0".toList ++ ' ' :: rest' := by
    rw [← hstripped, ← hrest']
    rfl
  have heq := (append_blank_inj (not_mem_of_isMethodToken hmethod) not_mem_versionText hsplit).1
  rw [heq] at hmethod
  exact absurd hmethod (by decide)

theorem ne_version_of_isMethodToken (h : isMethodToken method = true) :
    method ≠ "SIP/2.0".toList := by
  rintro rfl
  exact absurd h (by decide)

theorem parsed_of_sniffed (limits : ParserLimits) (captured : Captured)
    (hline : firstLineText data = some line) (hstarts : startsSipMessage data = true)
    (hnot : (asciiBytes "SIP/2.0 ").isPrefixOf data = false) :
    ∃ msg method between, parseSipBytes limits data captured = .ok msg ∧ msg.isRequest = true ∧
      msg.method = some (SipMethod.parse (String.ofList method)) ∧ isMethodToken method = true ∧
      Utf8.decode (data.takeWhile (· ≠ 32)) = some method ∧
      line = method ++ ' ' :: (between ++ versionText) ∧
      msg.requestUri = some (String.ofList (trim between)) := by
  obtain ⟨k, methodBytes, uriBytes, hk, hbytes⟩ := (startsSipMessage_iff hnot).mp hstarts
  have hdecode := hline
  rw [firstLineText, hk] at hdecode
  obtain ⟨between, -, rfl⟩ := hbytes.text_eq hdecode
  have hmethod := hbytes.token_text
  have hfirst := parseFirstLine_request (not_mem_of_isMethodToken hmethod)
    (ne_version_of_isMethodToken hmethod) (strippedLine_request hmethod between)
  obtain ⟨msg, hmsg, hrequest, hname, huri⟩ := parseSipBytes_of_first limits captured hline hfirst
  refine ⟨msg, _, between, hmsg, hrequest, hname, hmethod, ?_, rfl, huri⟩
  have htake : data.takeWhile (· ≠ 32) = methodBytes := by
    rw [← take_append_drop k data, hbytes.split, append_assoc, takeWhile_append_of_pos]
    · simp
    · intro b hb
      simpa using (token_facts (hbytes.token b hb)).2.1
  rw [htake, hbytes.decode_method]

theorem sniffed_of_plain {uri : List Char} (hline : firstLineText data = some line)
    (hplain : line = method ++ ' ' :: (uri ++ versionText))
    (hmethod : isMethodToken method = true) (huri : trim uri ≠ []) :
    startsSipMessage data = true := by
  subst hplain
  have hnot := not_isPrefixOf_of_request hline (strippedLine_request hmethod uri) hmethod
  obtain ⟨k, hk, hdecode⟩ := bind_eq_some_iff.mp hline
  obtain ⟨methodBytes, uriBytes, hbytes⟩ := exists_sniffedLine hdecode hmethod huri
  exact (startsSipMessage_iff hnot).mpr ⟨k, methodBytes, uriBytes, hk, hbytes⟩

/-- What is sniffed as a request is read as one, with a URI where something stands there; a request
that is read from a line without blanks in front and a line end behind, with a token for its method
and a URI, is sniffed. -/
theorem request_lines_agree (limits : ParserLimits) (captured : Captured)
    (hline : firstLineText data = some line) :
    (startsSipMessage data = true → (asciiBytes "SIP/2.0 ").isPrefixOf data = false →
      ∃ msg method between uri, parseSipBytes limits data captured = .ok msg ∧
        msg.isRequest = true ∧ msg.method = some method ∧
        Utf8.decode (data.takeWhile (· ≠ 32)) = some method.asStr.toList ∧
        line = method.asStr.toList ++ ' ' :: (between ++ versionText) ∧
        msg.requestUri = some uri ∧
        ((∃ c ∈ between, isWhitespace c = false) → uri ≠ "")) ∧
      (∀ msg method uri, parseSipBytes limits data captured = .ok msg → msg.isRequest = true →
        msg.method = some method → isMethodToken method.asStr.toList = true →
        msg.requestUri = some uri → uri ≠ "" → strippedLine line = line →
        startsSipMessage data = true) := by
  constructor
  · intro hstarts hnot
    obtain ⟨msg, method, between, hmsg, hrequest, hname, -, hspelled, hsplit, huri⟩ :=
      parsed_of_sniffed limits captured hline hstarts hnot
    refine ⟨msg, _, between, _, hmsg, hrequest, hname, ?_, ?_, huri, ?_⟩
    · rw [hspelled, SipMethod.asStr_parse, String.toList_ofList]
    · rw [SipMethod.asStr_parse, String.toList_ofList]
      exact hsplit
    · rintro ⟨c, hmem, hc⟩ hempty
      have hnil : trim between = [] := by simpa using congrArg String.toList hempty
      rw [trim_eq_nil_iff.mp hnil c hmem] at hc
      cases hc
  · intro msg method uri hmsg hrequest hname hmethod huri hne hplain
    obtain ⟨line', first, hline', hfirst, hsame, hsameMethod, hsameUri⟩ :=
      exists_first_of_parseSipBytes hmsg
    rw [hline] at hline'
    obtain rfl := some.inj hline'
    rw [hsame] at hrequest
    obtain ⟨name, between, hstripped, -, hfirstMethod, hfirstUri⟩ :=
      exists_request_of_parseFirstLine hfirst hrequest
    rw [hsameMethod, hfirstMethod] at hname
    rw [← some.inj hname, SipMethod.asStr_parse, String.toList_ofList] at hmethod
    rw [hsameUri, hfirstUri] at huri
    rw [← some.inj huri] at hne
    rw [hplain] at hstripped
    refine sniffed_of_plain hline hstripped hmethod ?_
    intro hnil
    rw [hnil] at hne
    exact hne rfl

end Message

def blankUri : List UInt8 :=
  asciiBytes "INVITE " ++ [0xC2, 0xA0] ++ asciiBytes " SIP/2.0\r\n\r\n"

/-- A request line with a carriage return in front of its line end. -/
def twoReturns : List UInt8 := asciiBytes "INVITE sip:a SIP/2.0\r\r\n\r\n"

theorem request_lines_agree_options :
    startsSipMessage (asciiBytes "OPTIONS sip:a SIP/2.0\r\n\r\n") = true ∧
      ∃ msg method, parseSipBytes {} (asciiBytes "OPTIONS sip:a SIP/2.0\r\n\r\n") anyCaptured =
        .ok msg ∧ msg.isRequest = true ∧ msg.method = some method := by
  have hline : firstLineText (asciiBytes "OPTIONS sip:a SIP/2.0\r\n\r\n") =
      some "OPTIONS sip:a SIP/2.0".toList := by
    decide
  have hstarts : startsSipMessage (asciiBytes "OPTIONS sip:a SIP/2.0\r\n\r\n") = true := by
    decide
  obtain ⟨msg, method, -, -, hmsg, hrequest, hname, -⟩ :=
    (request_lines_agree {} anyCaptured hline).1 hstarts (by decide)
  exact ⟨hstarts, msg, method, hmsg, hrequest, hname⟩

/-- A request line is sniffed and read without a URI, and one is read that is not sniffed. -/
theorem not_agree_blank_uri :
    ¬ ParsedAsSniffed {} anyCaptured blankUri ∧ ¬ SniffedAsParsed {} anyCaptured twoReturns := by
  constructor
  · intro h
    have hline : firstLineText blankUri = some "INVITE \u00A0 SIP/2.0".toList := by decide
    obtain ⟨msg, method, uri, hmsg, -, -, -, huri, hne⟩ := h (by decide) (by decide) _ hline
    have hempty : (parseSipBytes {} blankUri anyCaptured).toOption.bind (fun msg => msg.requestUri) =
        some "" := by
      decide
    rw [hmsg] at hempty
    rw [show (Except.ok msg : Except ParseError ParsedMessage).toOption.bind
      (fun msg => msg.requestUri) = msg.requestUri from rfl, huri] at hempty
    exact hne (some.inj hempty)
  · intro h
    have hstarts := h _ .invite rfl rfl rfl (by decide) (by decide)
    exact absurd hstarts (by decide)

end Sipnab
