import Sipnab.Sip.FilterAppend
import Sipnab.Sip.FilterNesting

/-!
# Bare and quoted values

A value of a comparison is written bare or in quotes, and both spell the same text. Inside quotes a
backslash takes the next character with it, so that a text that ends in an odd run of backslashes
takes its closing quote into the value: such a text has no quoted spelling as it stands.
-/

namespace Sipnab.Dsl

open Text List

variable {eng : Engines}

/-! ## Backslashes at the end -/

def trailingBackslashes (t : List Char) : ℕ := (t.reverse.takeWhile (· == '\\')).length

/-- Whether a scan from the left leaves a backslash open behind a text. -/
def opensEscape (t : List Char) : Bool := t.foldl (fun opened c => !opened && c == '\\') false

variable {field : Field} {lead x : List Char} (t : List Char) (c : Char)

theorem trailingBackslashes_append_singleton :
    trailingBackslashes (t ++ [c]) = if c = '\\' then trailingBackslashes t + 1 else 0 := by
  unfold trailingBackslashes
  rw [reverse_append, reverse_singleton, singleton_append, takeWhile_cons]
  by_cases hc : c = '\\'
  · rw [if_pos hc, if_pos (by rw [hc]; rfl), length_cons]
  · rw [if_neg hc, if_neg (by simpa using hc), length_nil]

theorem opensEscape_eq : opensEscape t = decide (trailingBackslashes t % 2 = 1) := by
  induction t using List.reverseRecOn with
  | nil => rfl
  | append_singleton t c ih =>
    rw [trailingBackslashes_append_singleton, opensEscape, foldl_append]
    change (!opensEscape t && c == '\\') = _
    rw [ih]
    by_cases hc : c = '\\'
    · rw [if_pos hc, hc, Bool.eq_iff_iff]
      simp only [beq_self_eq_true, Bool.and_true, Bool.not_eq_true', decide_eq_false_iff_not,
        decide_eq_true_eq]
      omega
    · rw [if_neg hc, beq_eq_false_iff_ne.mpr hc, Bool.and_false]
      rfl

theorem opensEscape_cons {c : Char} (hc : c ≠ '\\') (t : List Char) :
    opensEscape (c :: t) = opensEscape t := by
  rw [opensEscape, foldl_cons, beq_eq_false_iff_ne.mpr hc, Bool.and_false]
  rfl

theorem opensEscape_pair (t : List Char) : opensEscape ('\\' :: c :: t) = opensEscape t := rfl

/-! ## The scan of a quoted value -/

variable {quote : Char} {rest : List Char} {op : Operator}

theorem isQuote_ne_backslash (hquote : isQuote quote = true) : quote ≠ '\\' := by
  rintro rfl
  exact absurd hquote (by decide)

/-- A text without quotes is read back from its quoted spelling, unless its last backslash takes
the closing quote. -/
theorem scanQuotedString_quoted (hquote : isQuote quote = true) {t : List Char}
    (ht : ∀ c ∈ t, isQuote c = false) (rest : List Char) :
    (opensEscape t = false ∧ scanQuotedString quote (t ++ quote :: rest) = some (t, rest)) ∨
      opensEscape t = true ∧ ∀ text rest', scanQuotedString quote (t ++ quote :: rest)
        = some (text, rest') → rest'.length < rest.length := by
  have hback := isQuote_ne_backslash hquote
  induction t using scanQuotedString.induct quote with
  | case1 =>
    refine Or.inl ⟨rfl, ?_⟩
    rw [nil_append, scanQuotedString, if_pos rfl]
    · exact fun hq => absurd hq hback
    · exact fun _ _ hq => absurd hq hback
  | case2 =>
    refine Or.inr ⟨rfl, fun text rest' hscan => ?_⟩
    rw [singleton_append, scanQuotedString] at hscan
    obtain ⟨⟨text', rest''⟩, hbehind, heq⟩ := Option.map_eq_some_iff.mp hscan
    cases heq
    obtain ⟨c, hlast⟩ := scanQuotedString_cons_suffix hbehind
    exact hlast.length_le
  | case3 c t ih =>
    have hc : isQuote c = false := ht c (mem_cons_of_mem _ (mem_cons_self ..))
    rw [opensEscape_pair, cons_append, cons_append, scanQuotedString]
    obtain ⟨heven, hscan⟩ | ⟨hodd, hscan⟩ :=
      ih (fun d hd => ht d (mem_cons_of_mem _ (mem_cons_of_mem _ hd)))
    · refine Or.inl ⟨heven, ?_⟩
      rw [hscan, hc]
      rfl
    · refine Or.inr ⟨hodd, fun text rest' h => ?_⟩
      obtain ⟨⟨text', rest''⟩, hscan', heq⟩ := Option.map_eq_some_iff.mp h
      cases heq
      exact hscan _ _ hscan'
  | case4 t hne hnil =>
    have hself : isQuote quote = false := ht quote (mem_cons_self ..)
    rw [hself] at hquote
    cases hquote
  | case5 c t hne hnil hc ih =>
    have hplain : c ≠ '\\' := by
      rintro rfl
      cases t with
      | nil => exact hne rfl rfl
      | cons d t => exact hnil d t rfl rfl
    rw [opensEscape_cons hplain, cons_append, scanQuotedString, if_neg hc]
    · obtain ⟨heven, hscan⟩ | ⟨hodd, hscan⟩ := ih (fun d hd => ht d (mem_cons_of_mem _ hd))
      · refine Or.inl ⟨heven, ?_⟩
        rw [hscan]
        rfl
      · refine Or.inr ⟨hodd, fun text rest' h => ?_⟩
        obtain ⟨⟨text', rest''⟩, hscan', heq⟩ := Option.map_eq_some_iff.mp h
        cases heq
        exact hscan _ _ hscan'
    · exact fun hq => absurd hq hplain
    · exact fun _ _ hq => absurd hq hplain

/-! ## Comparisons -/

theorem valueText_of_isQuote (hquote : isQuote quote = true) (s : List Char) (op : Operator)
    {p : List Char × List Char} :
    valueText (quote :: s) op = .ok p ↔ scanQuotedString quote s = some p := by
  rw [valueText, if_pos hquote]
  cases scanQuotedString quote s with
  | none => exact ⟨fun h => (by cases h), fun h => (by cases h)⟩
  | some q =>
    change Except.ok q = .ok p ↔ _
    rw [Except.ok.injEq, Option.some.injEq]

/-- A text that may be written bare before what follows it. -/
structure Bare (op : Operator) (t rest : List Char) : Prop where
  nonempty : t ≠ []
  plain : ∀ c ∈ t, isWhitespace c = false ∧ isQuote c = false
  start : (t.head?.map isReservedBareStart).getD false = false
  scanned : scanBareValue (t ++ rest) (op == .regex) = (t, rest)
  ends : endsAComparison rest = true

theorem Bare.taken {t : List Char} (h : Bare op t rest) :
    valueText (t ++ rest) op = .ok (t, rest) := by
  have hscan := h.scanned
  cases t with
  | nil => exact absurd rfl h.nonempty
  | cons c t =>
    have hquote : isQuote c = false := (h.plain c (mem_cons_self ..)).2
    have hstart : isReservedBareStart c = false := h.start
    rw [cons_append] at hscan ⊢
    rw [valueText, hquote, hstart, Bool.false_and, if_neg Bool.false_ne_true,
      if_neg Bool.false_ne_true, hscan]
    dsimp only
    rw [h.ends]
    rfl

theorem readValue_eq_ok (input input' text : List Char) (field : Field) (op : Operator)
    {v : Value eng} (h : readValue input text field op = .ok v) :
    readValue input' text field op = .ok v := by
  unfold readValue at h ⊢
  split at h
  case isTrue hregex =>
    rw [if_pos hregex]
    split at h
    case isTrue hpayload =>
      rw [if_pos hpayload]
      cases hre : eng.bytesRegex text with
      | none => rw [hre] at h; cases h
      | some re => rw [hre] at h; exact h
    case isFalse hpayload =>
      rw [if_neg hpayload]
      cases hre : eng.regex text with
      | none => rw [hre] at h; cases h
      | some re => rw [hre] at h; exact h
  case isFalse hregex =>
    rw [if_neg hregex]
    cases hkind : field.valueKind with
    | text => rw [hkind] at h; exact h
    | number =>
      rw [hkind] at h
      cases hnum : eng.number text with
      | none => rw [hnum] at h; cases h
      | some n => rw [hnum] at h; exact h
    | boolean =>
      rw [hkind] at h
      split_ifs at h ⊢
      · exact h
      · exact h
    | instant =>
      rw [hkind] at h
      cases hinstant : eng.parseInstant text with
      | none => rw [hinstant] at h; cases h
      | some i => rw [hinstant] at h; exact h

theorem comparisonHead_blank (h : comparisonHead lead = .ok (field, op, []))
    (hx : multispace0 x = x) : comparisonHead (lead ++ ' ' :: x) = .ok (field, op, x) := by
  have hstop : ∃ c t, ' ' :: x = c :: t ∧ isStop c = true := ⟨' ', x, rfl, by decide⟩
  obtain ⟨afterField, afterOp, hfield, hop, htime, hbool, hnil⟩ := comparisonHead_eq_ok h
  have hs : multispace0 lead ≠ [] := by
    intro hempty
    rw [hempty, parseField_nil] at hfield
    cases hfield
  have hafter : multispace0 afterField ≠ [] := by
    intro hempty
    rw [hempty, parseOperator_nil] at hop
    cases hop
  have hvalue : multispace0 (afterOp ++ ' ' :: x) = x := by
    have hempty : (afterOp.dropWhile isMultispace).isEmpty = true := List.isEmpty_iff.mpr hnil.symm
    rw [multispace0, dropWhile_append, if_pos hempty]
    exact (dropWhile_cons_of_pos (by decide)).trans hx
  unfold comparisonHead
  rw [multispace0_append hs, parseField_append hstop hfield]
  dsimp only [bind, Except.bind]
  rw [multispace0_append hafter, parseOperator_append hstop hop]
  dsimp only
  rw [if_neg htime, if_neg hbool, hvalue]

theorem parseComparison_blank (h : comparisonHead lead = .ok (field, op, []))
    (hx : multispace0 x = x) (e : Expr eng) :
    parseComparison (lead ++ ' ' :: x) = .ok (e, rest) ↔
      ∃ text v, valueText x op = .ok (text, rest) ∧ readValue text text field op = .ok v ∧
        e = .compare field op v := by
  have hhead := comparisonHead_blank h hx
  constructor
  · intro hparse
    obtain ⟨field', op', valueAt, text, v, hhead', htext, hread, rfl⟩ := parseComparison_eq_ok hparse
    rw [hhead] at hhead'
    cases hhead'
    rw [hx] at htext hread
    exact ⟨text, v, htext, readValue_eq_ok _ _ _ _ _ hread, rfl⟩
  · rintro ⟨text, v, htext, hread, rfl⟩
    unfold parseComparison parseValue
    rw [hhead]
    dsimp only [bind, Except.bind]
    rw [hx, htext]
    dsimp only
    rw [readValue_eq_ok _ x _ _ _ hread]

theorem multispace0_of_head {c : Char} (hc : isMultispace c = false) (s : List Char) :
    multispace0 (c :: s) = c :: s := dropWhile_cons_of_neg (by simp [hc])

theorem isMultispace_of_isQuote (hquote : isQuote quote = true) : isMultispace quote = false := by
  rw [isQuote, Bool.or_eq_true, beq_iff_eq, beq_iff_eq] at hquote
  obtain rfl | rfl := hquote <;> decide

theorem Bare.multispace0 {t : List Char} (h : Bare op t rest) :
    Dsl.multispace0 (t ++ rest) = t ++ rest := by
  cases t with
  | nil => exact absurd rfl h.nonempty
  | cons c t =>
    refine multispace0_of_head ?_ _
    rw [Bool.eq_false_iff]
    intro hblank
    have hwhite := (h.plain c (mem_cons_self ..)).1
    have hwhite' : isWhitespace c = true := by
      simp only [isMultispace, Bool.or_eq_true, beq_iff_eq] at hblank
      obtain ((rfl | rfl) | rfl) | rfl := hblank <;> decide
    rw [hwhite] at hwhite'
    cases hwhite'

/-- A comparison reads the same with its value bare and with its value in quotes exactly when the
value does not end in an odd run of backslashes, or is no value of the field at all. -/
theorem quoted_reads_as_bare_iff {lead t rest : List Char} {field : Field} {op : Operator}
    (hlead : comparisonHead lead = .ok (field, op, [])) (ht : Bare op t rest) :
    (∀ quote, isQuote quote = true → ∀ e : Expr eng,
      (parseComparison (lead ++ ' ' :: quote :: (t ++ quote :: rest)) = .ok (e, rest) ↔
        parseComparison (lead ++ ' ' :: (t ++ rest)) = .ok (e, rest))) ↔
      trailingBackslashes t % 2 = 0 ∨ ∀ v : Value eng, readValue t t field op ≠ .ok v := by
  have hplain : ∀ c ∈ t, isQuote c = false := fun c hc => (ht.plain c hc).2
  have hbare : ∀ e : Expr eng, parseComparison (lead ++ ' ' :: (t ++ rest)) = .ok (e, rest) ↔
      ∃ v, readValue t t field op = .ok v ∧ e = .compare field op v := by
    intro e
    rw [parseComparison_blank hlead ht.multispace0, ht.taken]
    constructor
    · rintro ⟨text, v, htext, hread, rfl⟩
      cases htext
      exact ⟨v, hread, rfl⟩
    · rintro ⟨v, hread, rfl⟩
      exact ⟨t, v, rfl, hread, rfl⟩
  have hquoted : ∀ quote, isQuote quote = true → ∀ e : Expr eng,
      parseComparison (lead ++ ' ' :: quote :: (t ++ quote :: rest)) = .ok (e, rest) ↔
        ∃ text v, scanQuotedString quote (t ++ quote :: rest) = some (text, rest) ∧
          readValue text text field op = .ok v ∧ e = .compare field op v := by
    intro quote hquote e
    rw [parseComparison_blank hlead (multispace0_of_head (isMultispace_of_isQuote hquote) _)]
    simp only [valueText_of_isQuote hquote]
  constructor
  · intro hsame
    by_contra hnot
    rw [not_or, not_forall] at hnot
    obtain ⟨hodd, v, hv⟩ := hnot
    have hread : readValue t t field op = .ok v := not_not.mp hv
    have hescape : opensEscape t = true := by
      rw [opensEscape_eq, decide_eq_true_eq]
      omega
    obtain ⟨text, -, hscan, -, -⟩ := (hquoted '\'' (by decide) _).mp
      ((hsame '\'' (by decide) (.compare field op v)).mpr ((hbare _).mpr ⟨v, hread, rfl⟩))
    have hsingle : isQuote '\'' = true := by decide
    obtain ⟨heven, -⟩ | ⟨-, hshort⟩ := scanQuotedString_quoted hsingle hplain rest
    · rw [hescape] at heven
      cases heven
    · exact lt_irrefl _ (hshort text rest hscan)
  · intro hcond quote hquote e
    rw [hquoted quote hquote, hbare]
    obtain ⟨-, hscan⟩ | ⟨hodd, hshort⟩ := scanQuotedString_quoted hquote hplain rest
    · rw [hscan]
      constructor
      · rintro ⟨text, v, htext, hread, rfl⟩
        cases htext
        exact ⟨v, hread, rfl⟩
      · rintro ⟨v, hread, rfl⟩
        exact ⟨t, v, rfl, hread, rfl⟩
    · have hfails : ∀ v : Value eng, readValue t t field op ≠ .ok v := by
        obtain heven | hfails := hcond
        · rw [opensEscape_eq, decide_eq_true_eq] at hodd
          omega
        · exact hfails
      constructor
      · rintro ⟨text, -, hscan, -, -⟩
        exact absurd (hshort text rest hscan) (lt_irrefl _)
      · rintro ⟨v, hread, -⟩
        exact absurd hread (hfails v)

theorem bare_invite : Bare .eq "INVITE".toList [] where
  nonempty := by decide
  plain := all_iff_forall_prop.mp (by decide)
  start := by decide
  scanned := by decide
  ends := by decide

/-- A method reads the same in all three spellings. -/
theorem quoted_invite_reads_as_bare : Bare .eq "INVITE".toList [] ∧
    ∀ quote, isQuote quote = true → ∀ e : Expr noEngines,
      (parseComparison ("method ==".toList ++ ' ' :: quote :: ("INVITE".toList ++ quote :: []))
          = .ok (e, []) ↔
        parseComparison ("method ==".toList ++ ' ' :: ("INVITE".toList ++ [])) = .ok (e, [])) := by
  have hhead : comparisonHead "method ==".toList = .ok (.method, .eq, []) := rfl
  exact ⟨bare_invite, (quoted_reads_as_bare_iff hhead bare_invite).mpr (Or.inl (by decide))⟩

/-- A text that ends in a backslash is a value when it is bare, and is not closed in quotes. -/
theorem backslash_value_not_closed :
    Bare .eq "a\\".toList [] ∧ comparisonHead "call_id ==".toList = .ok (.callId, .eq, []) ∧
      (parseComparison "call_id == a\\".toList : Except NomErr (Expr noEngines × List Char))
        = .ok (.compare .callId .eq (.str "a\\".toList), []) ∧
      (parseComparison "call_id == 'a\\'".toList : Except NomErr (Expr noEngines × List Char))
        = .error ⟨.quotedValueUnterminated, "'a\\'".toList⟩ ∧
      (parseComparison "call_id == \"a\\\"".toList : Except NomErr (Expr noEngines × List Char))
        = .error ⟨.quotedValueUnterminated, "\"a\\\"".toList⟩ := by
  refine ⟨⟨by decide, all_iff_forall_prop.mp (by decide), by decide, by decide, by decide⟩,
    rfl, rfl, rfl, rfl⟩

end Sipnab.Dsl
