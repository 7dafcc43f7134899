import Sipnab.Sip.FilterGrammar

/-!
# What follows an expression

An expression is read the same whatever stands behind it, as long as that is blanks or a `)`: each
scanner stops there, and the loops find no word to go on with. The one exception is a bare value
with a parenthesis or a class of its own still open, which takes the `)`.
-/

namespace Sipnab.Dsl

open Text List

variable {eng : Engines}

/-! ## Characters that end a word -/

def isStop (c : Char) : Bool := isWhitespace c || c == ')'

variable {c : Char} {word s w x rest text : List Char} {field : Field} {op : Operator} (n : ℕ)

theorem isStop_of_isMultispace (h : isMultispace c = true) : isWhitespace c = true := by
  simp only [isMultispace, Bool.or_eq_true, beq_iff_eq] at h
  obtain ((rfl | rfl) | rfl) | rfl := h <;> decide

theorem not_isIdentChar_of_isStop (h : isStop c = true) : isIdentChar c = false := by
  rw [Bool.eq_false_iff]
  intro hident
  simp only [isIdentChar, isAsciiAlphanumeric, isAsciiDigit, isAsciiUppercase, Bool.or_eq_true,
    Bool.and_eq_true, decide_eq_true_eq, beq_iff_eq] at hident
  simp only [isStop, isWhitespace, Bool.or_eq_true, Bool.and_eq_true, decide_eq_true_eq,
    beq_iff_eq] at h
  have hword : (48 ≤ c.toNat ∧ c.toNat ≤ 57) ∨ (65 ≤ c.toNat ∧ c.toNat ≤ 90) ∨
      (97 ≤ c.toNat ∧ c.toNat ≤ 122) ∨ c.toNat = 95 := by
    obtain ((hd | hu) | hl) | hu := hident
    · exact Or.inl hd
    · exact Or.inr (Or.inl hu)
    · exact Or.inr (Or.inr (Or.inl hl))
    · exact Or.inr (Or.inr (Or.inr (hu ▸ rfl)))
  have hparen : c = ')' → c.toNat = 41 := fun hc => hc ▸ rfl
  obtain h | hc := h
  · omega
  · have := hparen hc
    omega

theorem isStop_lower (h : isStop c = true) : toAsciiLowercase c = c := by
  rw [toAsciiLowercase, if_neg]
  intro hupper
  have hident : isIdentChar c = true := by
    rw [isIdentChar, isAsciiAlphanumeric, hupper]
    simp
  rw [not_isIdentChar_of_isStop h] at hident
  cases hident

theorem isPrefixOf_append_stop (hword : ∀ d ∈ word, isStop d = false) (hc : isStop c = true)
    (s t : List Char) : word.isPrefixOf (s ++ c :: t) = word.isPrefixOf s := by
  induction word generalizing s with
  | nil => simp
  | cons d word ih =>
    have hd : (d == c) = false := by
      rw [beq_eq_false_iff_ne]
      rintro rfl
      rw [hword d (mem_cons_self ..)] at hc
      cases hc
    cases s with
    | nil => simp [List.isPrefixOf, hd]
    | cons a s =>
      simp only [cons_append, List.isPrefixOf]
      rw [ih (fun d' hd' => hword d' (mem_cons_of_mem d hd'))]

theorem dropWhile_append_stop {p : Char → Bool} (hc : p c = false) (s t : List Char) :
    (s ++ c :: t).dropWhile p = s.dropWhile p ++ c :: t := by
  induction s with
  | nil => exact dropWhile_cons_of_neg (by simp [hc])
  | cons a s ih =>
    cases ha : p a with
    | false =>
      rw [dropWhile_cons_of_neg (by simp [ha]), cons_append,
        dropWhile_cons_of_neg (by simp [ha])]
    | true =>
      rw [dropWhile_cons_of_pos ha, cons_append, dropWhile_cons_of_pos ha, ih]

theorem takeWhile_append_stop {p : Char → Bool} (hc : p c = false) (s t : List Char) :
    (s ++ c :: t).takeWhile p = s.takeWhile p := by
  induction s with
  | nil => exact takeWhile_cons_of_neg (by simp [hc])
  | cons a s ih =>
    cases ha : p a with
    | false =>
      rw [takeWhile_cons_of_neg (by simp [ha]), cons_append,
        takeWhile_cons_of_neg (by simp [ha])]
    | true =>
      rw [takeWhile_cons_of_pos ha, cons_append, takeWhile_cons_of_pos ha, ih]

structure Follows (x : List Char) : Prop where
  head : ∃ c t, x = c :: t ∧ isStop c = true
  trimmed : trimStart x = [] ∨ ∃ y, trimStart x = ')' :: y

theorem follows_append_paren (hw : ∀ c ∈ w, isWhitespace c = true) (y : List Char) :
    Follows (w ++ ')' :: y) where
  head := by
    cases w with
    | nil => exact ⟨')', y, rfl, by decide⟩
    | cons c w => exact ⟨c, w ++ ')' :: y, rfl, by rw [isStop, hw c (mem_cons_self ..)]; rfl⟩
  trimmed := by
    refine Or.inr ⟨y, ?_⟩
    rw [trimStart, dropWhile_append_of_pos hw]
    exact dropWhile_cons_of_neg (by decide)

/-! ## Blanks and words -/

theorem multispace0_append (h : multispace0 s ≠ []) (x : List Char) :
    multispace0 (s ++ x) = multispace0 s ++ x := by
  rw [multispace0, dropWhile_append, if_neg]
  · rfl
  · rw [List.isEmpty_iff]
    exact h

theorem keyword_append_some (h : keyword word s = some rest) (hrest : rest ≠ []) (x : List Char) :
    keyword word (s ++ x) = some (rest ++ x) := by
  obtain ⟨hword, c, t, hdrop, hc, rfl⟩ := keyword_eq_some h
  have hlength : word.length ≤ s.length := by
    have hlen := congrArg List.length hdrop
    rw [length_drop, length_cons] at hlen
    omega
  rw [keyword, take_append_of_le_length hlength, if_pos hword,
    drop_append_of_le_length hlength, hdrop, cons_append]
  dsimp only
  rw [if_pos hc, multispace0_append hrest]

theorem keyword_trimStart_append (h : keyword word (trimStart s) = some rest) (hrest : rest ≠ [])
    (x : List Char) : keyword word (trimStart (s ++ x)) = some (rest ++ x) := by
  have hstart : trimStart s ≠ [] := by
    intro hnil
    exact hrest (suffix_nil.mp (hnil ▸ keyword_suffix h))
  rw [trimStart_append hstart, keyword_append_some h hrest]

theorem keyword_cons_none {d : Char} (hword : word = d :: w)
    (h : toAsciiLowercase c ≠ toAsciiLowercase d) (s : List Char) :
    keyword word (c :: s) = none := by
  subst hword
  rw [keyword, if_neg]
  rw [eqIgnoreAsciiCase, length_cons, take_succ_cons, map_cons, map_cons,
    beq_iff_eq, List.cons.injEq]
  exact fun heq => h heq.1

theorem keyword_nil (word : List Char) : keyword word [] = none := by
  rw [keyword, take_nil, drop_nil]
  split <;> rfl

theorem keyword_head {d : Char} (hword : word = d :: w) (h : keyword word s = some rest) :
    ∃ c t, s = c :: t ∧ toAsciiLowercase c = toAsciiLowercase d := by
  cases s with
  | nil =>
    rw [keyword_nil] at h
    cases h
  | cons c t =>
    refine ⟨c, t, rfl, ?_⟩
    by_contra hne
    rw [keyword_cons_none hword hne] at h
    cases h

/-! ## Comparisons -/

theorem scanQuotedString_append {quote : Char} (h : scanQuotedString quote s = some (text, rest))
    (x : List Char) : scanQuotedString quote (s ++ x) = some (text, rest ++ x) := by
  induction s using scanQuotedString.induct quote generalizing text with
  | case1 => cases h
  | case2 => cases h
  | case3 c t ih =>
    rw [scanQuotedString] at h
    obtain ⟨⟨text', rest'⟩, hscan, heq⟩ := Option.map_eq_some_iff.mp h
    cases heq
    rw [cons_append, cons_append, scanQuotedString, ih hscan]
    rfl
  | case4 t hne hnil =>
    have hback : quote ≠ '\\' := by
      rintro rfl
      cases t with
      | nil => exact hne rfl rfl
      | cons d u => exact hnil d u rfl rfl
    rw [scanQuotedString, if_pos rfl] at h
    · cases h
      rw [cons_append, scanQuotedString, if_pos rfl]
      · exact fun hquote => absurd hquote hback
      · exact fun _ _ hquote => absurd hquote hback
    · exact hne
    · exact hnil
  | case5 c t hne hnil hquote ih =>
    have hback : c ≠ '\\' := by
      rintro rfl
      cases t with
      | nil => exact hne rfl rfl
      | cons d u => exact hnil d u rfl rfl
    rw [scanQuotedString, if_neg hquote] at h
    · obtain ⟨⟨text', rest'⟩, hscan, heq⟩ := Option.map_eq_some_iff.mp h
      cases heq
      rw [cons_append, scanQuotedString, if_neg hquote, ih hscan]
      · rfl
      · exact fun hc => absurd hc hback
      · exact fun _ _ hc => absurd hc hback
    · exact hne
    · exact hnil

section

variable (hx : ∃ c t, x = c :: t ∧ isStop c = true)
include hx

theorem headerName_append {name : List Char} (h : headerName s = some (name, rest)) :
    headerName (s ++ x) = some (name, rest ++ x) := by
  obtain ⟨c, t, rfl, hc⟩ := hx
  have hend : (fun c => !endsBareHeaderName c) c = false := by
    simp only [isStop, Bool.or_eq_true, beq_iff_eq] at hc
    obtain hc | rfl := hc
    · simp [endsBareHeaderName, hc]
    · decide
  cases s with
  | nil =>
    have hquote : isQuote c = false := by
      rw [Bool.eq_false_iff]
      intro hquote
      rw [isQuote, Bool.or_eq_true, beq_iff_eq, beq_iff_eq] at hquote
      obtain rfl | rfl := hquote <;> exact absurd hc (by decide)
    cases h
    rw [nil_append, headerName, hquote, if_neg Bool.false_ne_true,
      takeWhile_cons_of_neg (by simp [hend]), dropWhile_cons_of_neg (by simp [hend])]
  | cons quote s =>
    rw [headerName] at h
    rw [cons_append, headerName]
    split at h
    case isTrue hquote =>
      rw [if_pos hquote]
      exact scanQuotedString_append h _
    case isFalse hquote =>
      cases h
      rw [if_neg hquote, ← cons_append, takeWhile_append_stop hend, dropWhile_append_stop hend]

theorem identifier_append (s : List Char) :
    identifier (s ++ x) = ((identifier s).1, (identifier s).2 ++ x) := by
  obtain ⟨c, t, rfl, hc⟩ := hx
  have hident := not_isIdentChar_of_isStop hc
  unfold identifier
  rw [takeWhile_append_stop hident, dropWhile_append_stop hident]
  cases hdrop : s.dropWhile isIdentChar with
  | nil =>
    have hdot : c ≠ '.' := by
      rintro rfl
      exact absurd hc (by decide)
    rw [nil_append]
    split
    case h_1 heq => exact absurd (List.cons.inj heq).1 hdot
    case h_2 => rfl
  | cons d rest =>
    by_cases hdot : d = '.'
    · subst hdot
      simp only [cons_append, takeWhile_append_stop hident, dropWhile_append_stop hident]
      split <;> rfl
    · rw [cons_append]
      split
      case h_1 heq => exact absurd (List.cons.inj heq).1 hdot
      case h_2 =>
        split
        case h_1 heq => exact absurd (List.cons.inj heq).1 hdot
        case h_2 => rfl

theorem parseField_append (h : parseField s = .ok (field, rest)) :
    parseField (s ++ x) = .ok (field, rest ++ x) := by
  have hstop := hx
  obtain ⟨c, t, hxc, hc⟩ := hx
  have hheader : headerFieldPrefix.isPrefixOf (s ++ x) = headerFieldPrefix.isPrefixOf s := by
    rw [hxc]
    exact isPrefixOf_append_stop (all_iff_forall_prop.mp (by decide)) hc s t
  unfold parseField at h ⊢
  rw [hheader]
  split at h
  case isTrue hisPrefix =>
    rw [if_pos hisPrefix]
    have hlength : headerFieldPrefix.length ≤ s.length :=
      ( isPrefixOf_iff_prefix.mp hisPrefix).length_le
    unfold parseHeaderField at h ⊢
    split at h
    case h_1 => cases h
    case h_2 name rest' hname =>
      rw [drop_append_of_le_length hlength, headerName_append hstop hname]
      dsimp only at h ⊢
      split_ifs at h with hlong htoken
      cases h
      rw [if_neg hlong, if_neg htoken]
  case isFalse hisPrefix =>
    rw [if_neg hisPrefix, identifier_append hstop]
    dsimp only at h ⊢
    split_ifs at h with hempty
    rw [if_neg hempty]
    split at h
    case h_1 field' hlookup =>
      cases h
      rfl
    case h_2 => cases h

end

theorem operators_stop : ∀ p ∈ operators, ∀ d ∈ p.1, isStop d = false := by
  have hall : ∀ p ∈ operators, p.1.all (fun d => isStop d = false) = true := by decide
  intro p hp
  exact all_iff_forall_prop.mp (hall p hp)

theorem parseOperator_append (hx : ∃ c t, x = c :: t ∧ isStop c = true)
    (h : parseOperator s = .ok (op, rest)) : parseOperator (s ++ x) = .ok (op, rest ++ x) := by
  obtain ⟨c, t, hxc, hc⟩ := hx
  have hfind : operators.find? (fun p => p.1.isPrefixOf (s ++ x)) =
      operators.find? (fun p => p.1.isPrefixOf s) := by
    apply List.find?_congr
    intro p hp
    rw [hxc, isPrefixOf_append_stop (operators_stop p hp) hc]
  unfold parseOperator at h ⊢
  rw [hfind]
  split at h
  case h_1 word op' hword =>
    cases h
    have hisPrefix : word.isPrefixOf s = true := by simpa using List.find?_some hword
    rw [drop_append_of_le_length ( isPrefixOf_iff_prefix.mp hisPrefix).length_le]
  case h_2 => cases h

theorem parseField_nil : parseField [] = .error ⟨.takeWhile1, []⟩ := rfl

theorem parseOperator_nil : parseOperator [] = .error ⟨.tag, []⟩ := rfl

theorem comparisonHead_append {valueAt : List Char} (hx : Follows x)
    (h : comparisonHead s = .ok (field, op, valueAt)) (hvalue : valueAt ≠ []) :
    comparisonHead (s ++ x) = .ok (field, op, valueAt ++ x) := by
  obtain ⟨afterField, afterOp, hfield, hop, htime, hbool, rfl⟩ := comparisonHead_eq_ok h
  have hs : multispace0 s ≠ [] := by
    intro hnil
    rw [hnil, parseField_nil] at hfield
    cases hfield
  have hafter : multispace0 afterField ≠ [] := by
    intro hnil
    rw [hnil, parseOperator_nil] at hop
    cases hop
  unfold comparisonHead
  rw [multispace0_append hs, parseField_append hx.head hfield]
  dsimp only [bind, Except.bind]
  rw [multispace0_append hafter, parseOperator_append hx.head hop]
  dsimp only
  rw [if_neg htime, if_neg hbool, multispace0_append hvalue]

/-! ## Values -/

def Event.unclosed : Event eng → Bool
  | .value op (c :: cs) =>
    !isQuote c && (scanBareValue (c :: cs ++ [')']) (op == .regex)).2.isEmpty
  | _ => false

def endsUnclosed (log : List (Event eng)) : Bool := (log.getLast?.map Event.unclosed).getD false

/-- What is left is blanks, a `)` or a word to go on with. -/
def Settled (rest : List Char) : Prop :=
  trimStart rest = [] ∨ (∃ y, trimStart rest = ')' :: y) ∨
    ∃ next, next ≠ [] ∧ (keyword "AND".toList (trimStart rest) = some next ∨
      keyword "OR".toList (trimStart rest) = some next)

theorem startsWithWord_of_keyword (h : keyword word s = some rest) (x : List Char) :
    startsWithWord word (s ++ x) = true := by
  obtain ⟨hword, c, t, hdrop, hc, -⟩ := keyword_eq_some h
  have hlength : word.length ≤ s.length := by
    have hlen := congrArg List.length hdrop
    rw [length_drop, length_cons] at hlen
    omega
  rw [startsWithWord, take_append_of_le_length hlength, hword,
    drop_append_of_le_length hlength, hdrop]
  exact isStop_of_isMultispace hc

theorem endsAComparison_append (hx : Follows x) (h : Settled rest) :
    endsAComparison (rest ++ x) = true := by
  obtain hnil | ⟨y, hparen⟩ | ⟨next, -, hword⟩ := h
  · have htrim : trimStart (rest ++ x) = trimStart x := by
      rw [trimStart, dropWhile_append, if_pos]
      · rfl
      · rw [List.isEmpty_iff]
        exact hnil
    rw [endsAComparison, htrim]
    obtain hx | ⟨y, hy⟩ := hx.trimmed
    · rw [hx]
    · rw [hy]
      rfl
  · rw [endsAComparison, trimStart_append (by rw [hparen]; simp), hparen]
    rfl
  · have hne : trimStart rest ≠ [] := by
      intro hnil
      rw [hnil, keyword_nil, keyword_nil] at hword
      obtain hword | hword := hword <;> cases hword
    rw [endsAComparison, trimStart_append hne]
    have hstarts := hword.imp (fun h => startsWithWord_of_keyword h x)
      (fun h => startsWithWord_of_keyword h x)
    cases hcons : trimStart rest with
    | nil => exact absurd hcons hne
    | cons c t =>
      rw [hcons] at hstarts
      dsimp only [cons_append] at hstarts ⊢
      obtain hand | hor := hstarts
      · rw [hand, Bool.or_true, Bool.true_or]
      · rw [hor, Bool.or_true]

theorem bareStep_whitespace (hc : isWhitespace c = true) (regex : Bool) (st : BareScan) :
    bareStep regex st c = none := by
  rw [bareStep, if_pos hc]

def Sealed (log : List (Event eng)) (rest x : List Char) : Prop :=
  rest ≠ [] ∨ x.head? ≠ some ')' ∨ endsUnclosed log = false

theorem scanBareValue_append_stop {s rest x : List Char} {regex : Bool} (hx : Follows x)
    (h : (scanBareValue s regex).2 = rest)
    (hsealed : rest ≠ [] ∨ x.head? ≠ some ')' ∨ (scanBareValue (s ++ [')']) regex).2 ≠ []) :
    scanBareValue (s ++ x) regex = ((scanBareValue s regex).1, rest ++ x) := by
  by_cases hrest : rest = []
  · subst hrest
    have hall := scanBareValue_append s regex
    rw [h, append_nil] at hall
    rw [hall, nil_append]
    obtain ⟨c, t, rfl, hc⟩ := hx.head
    rw [isStop, Bool.or_eq_true, beq_iff_eq] at hc
    obtain hc | rfl := hc
    · exact Scanner.scan_append_stop h (bareStep_whitespace hc regex) t
    · obtain hne | hne | hstop := hsealed
      · exact absurd rfl hne
      · exact absurd rfl hne
      · obtain heq | heq := Scanner.scan_append_singleton h ')'
        · exact Scanner.scan_append_cons heq t
        · rw [scanBareValue, heq] at hstop
          exact absurd rfl hstop
  · rw [← h] at hrest ⊢
    exact Scanner.scan_append hrest x

theorem valueText_append (hx : Follows x) (h : valueText s op = .ok (text, rest))
    (hrest : Settled rest) (hsealed : Sealed [(.value op (consumed s rest) : Event eng)] rest x) :
    valueText (s ++ x) op = .ok (text, rest ++ x) := by
  cases s with
  | nil => cases h
  | cons c body =>
    rw [valueText] at h
    rw [cons_append, valueText]
    split at h
    case isTrue hquote =>
      rw [if_pos hquote]
      split at h
      case h_1 => cases h
      case h_2 p hscan =>
        cases h
        rw [scanQuotedString_append hscan]
    case isFalse hquote =>
      rw [if_neg hquote]
      dsimp only at h ⊢
      split_ifs at h with hreserved hempty hends
      have hscan : scanBareValue (c :: body) (op == .regex) = (text, rest) := Except.ok.inj h
      have hbare : rest ≠ [] ∨ x.head? ≠ some ')' ∨
          (scanBareValue (c :: body ++ [')']) (op == .regex)).2 ≠ [] := by
        obtain hne | hhead | hclosed := hsealed
        · exact Or.inl hne
        · exact Or.inr (Or.inl hhead)
        · by_cases hnil : rest = []
          · refine Or.inr (Or.inr ?_)
            intro hopen
            have hraw : consumed (c :: body) rest = c :: body := by simp [consumed, hnil]
            simp [endsUnclosed, hraw, Event.unclosed, hquote] at hclosed
            exact hclosed (by simpa using hopen)
          · exact Or.inl hnil
      have happend := scanBareValue_append_stop hx (congrArg Prod.snd hscan) hbare
      rw [hscan] at happend hempty
      rw [if_neg hreserved, ← cons_append, happend, if_neg hempty]
      simp [endsAComparison_append hx hrest]

theorem consumed_append_append (h : rest <:+ s) (x : List Char) :
    consumed (s ++ x) (rest ++ x) = consumed s rest := by
  have hle := h.length_le
  rw [consumed, consumed, length_append, length_append, Nat.add_sub_add_right,
    take_append_of_le_length (Nat.sub_le _ _)]

theorem readValue_input {input input' : List Char} {value : Value eng}
    (h : readValue input text field op = .ok value) :
    readValue input' text field op = .ok value := by
  unfold readValue at h ⊢
  by_cases hregex : op = .regex
  · rw [if_pos hregex] at h ⊢
    by_cases hpayload : field = .payload
    · rw [if_pos hpayload] at h ⊢
      split at h
      case h_1 => exact h
      case h_2 => cases h
    · rw [if_neg hpayload] at h ⊢
      split at h
      case h_1 => exact h
      case h_2 => cases h
  · rw [if_neg hregex] at h ⊢
    split at h
    case h_1 => exact h
    case h_2 =>
      split at h
      case h_1 => exact h
      case h_2 => cases h
    case h_3 =>
      split_ifs at h with htrue hfalse
      · rw [if_pos htrue]
        exact h
      · rw [if_neg htrue, if_pos hfalse]
        exact h
    case h_4 =>
      split at h
      case h_1 => exact h
      case h_2 => cases h

theorem comparison_eq_ok {s rest : List Char} {e : Expr eng}
    (h : (comparison s : Parsed eng).outcome = .ok (e, rest)) :
    ∃ field op valueAt text value, comparisonHead s = .ok (field, op, valueAt) ∧
      valueText valueAt op = .ok (text, rest) ∧
      readValue valueAt text field op = .ok value ∧ e = .compare field op value ∧
      (comparison s : Parsed eng).log =
        [.text (consumed s valueAt), .value op (consumed valueAt rest)] := by
  unfold comparison at h ⊢
  split at h
  case h_1 field op valueAt e' rest' hhead hcmp =>
    cases h
    obtain ⟨field', op', valueAt', text, value, hhead', htext, hread, he⟩ :=
      parseComparison_eq_ok hcmp
    rw [hhead] at hhead'
    cases hhead'
    rw [multispace0_valueAt hhead] at htext hread
    rw [hhead]
    exact ⟨field, op, valueAt, text, value, rfl, htext, hread, he, rfl⟩
  case h_2 => cases h
  case h_3 => cases h

theorem comparison_of_parts {valueAt : List Char} {value : Value eng}
    (hhead : comparisonHead s = .ok (field, op, valueAt))
    (htext : valueText valueAt op = .ok (text, rest))
    (hread : readValue valueAt text field op = .ok value) :
    comparison s = ⟨[.text (consumed s valueAt), .value op (consumed valueAt rest)],
      .ok (.compare field op value, rest)⟩ := by
  have hcmp : parseComparison s = .ok (.compare field op value, rest) := by
    unfold parseComparison parseValue
    rw [hhead]
    dsimp only [bind, Except.bind]
    rw [multispace0_valueAt hhead, htext]
    dsimp only
    rw [hread]
  unfold comparison
  rw [hhead, hcmp]
  rfl

theorem valueText_ne_nil (h : valueText s op = .ok (text, rest)) : s ≠ [] := by
  rintro rfl
  cases h

theorem comparison_append {e : Expr eng} (hx : Follows x)
    (h : (comparison s : Parsed eng).outcome = .ok (e, rest)) (hrest : Settled rest)
    (hsealed : Sealed (comparison s : Parsed eng).log rest x) :
    comparison (s ++ x) = ⟨(comparison s : Parsed eng).log, .ok (e, rest ++ x)⟩ := by
  obtain ⟨field, op, valueAt, text, value, hhead, htext, hread, rfl, hlog⟩ := comparison_eq_ok h
  rw [hlog] at hsealed ⊢
  have hvalue : Sealed [(.value op (consumed valueAt rest) : Event eng)] rest x := hsealed
  have hparts := comparison_of_parts (comparisonHead_append hx hhead (valueText_ne_nil htext))
    (valueText_append hx htext hrest hvalue) (readValue_input hread)
  rw [hparts, consumed_append_append (comparisonHead_suffix hhead),
    consumed_append_append (valueText_suffix htext)]

/-! ## Expressions -/

theorem not_ok_fail {halt : Halt} {a : Expr eng × List Char} :
    (.fail halt : Parsed eng).outcome ≠ .ok a := fun h => by cases h

section

variable (a : Expr eng × List Char)
include a

theorem comparison_nil_ne_ok : (comparison [] : Parsed eng).outcome ≠ .ok a := by
  intro h
  obtain ⟨field, op, valueAt, text, value, hhead, -⟩ := @comparison_eq_ok eng [] a.2 a.1 h
  cases hhead

theorem parse_atom_nil : (parse n .atom [] : Parsed eng).outcome ≠ .ok a := by
  cases n with
  | zero => exact not_ok_fail
  | succ n => exact comparison_nil_ne_ok a

theorem parse_notExpr_nil : (parse n .notExpr [] : Parsed eng).outcome ≠ .ok a := by
  cases n with
  | zero => exact not_ok_fail
  | succ n => exact parse_atom_nil n a

theorem parse_andExpr_nil : (parse n .andExpr [] : Parsed eng).outcome ≠ .ok a := by
  cases n with
  | zero => exact not_ok_fail
  | succ n =>
    intro h
    obtain ⟨b, hb, -⟩ := Logged.exists_of_andThen h
    exact parse_notExpr_nil n b hb

end

theorem ne_nil_of_andThen {n : ℕ} {rule : Rule eng} {f : Expr eng × List Char → Parsed eng}
    {b : Expr eng × List Char} (hnil : ∀ a, (parse n rule [] : Parsed eng).outcome ≠ .ok a)
    (h : ((parse n rule s).andThen f).outcome = .ok b) : s ≠ [] := by
  rintro rfl
  obtain ⟨a, ha, -⟩ := Logged.exists_of_andThen h
  exact hnil a ha

theorem orLoop_cases {n : ℕ} {result e : Expr eng}
    (h : (parse n (.orLoop result) s).outcome = .ok (e, rest)) :
    (rest = s ∧ (parse n (.orLoop result) s).log = []) ∨
      (s ≠ [] ∧ Settled s ∧ (parse n (.orLoop result) s).log ≠ []) := by
  cases n with
  | zero => exact absurd h not_ok_fail
  | succ n =>
    rw [parse] at h ⊢
    split at h
    case h_1 afterOr hword =>
      have hne := ne_nil_of_andThen (parse_andExpr_nil n) h
      refine Or.inr ⟨?_, Or.inr (Or.inr ⟨afterOr, hne, Or.inr hword⟩), by simp⟩
      rintro rfl
      cases hword
    case h_2 hword =>
      cases h
      exact Or.inl ⟨rfl, rfl⟩

theorem andLoop_cases {n : ℕ} {result e : Expr eng}
    (h : (parse n (.andLoop result) s).outcome = .ok (e, rest)) :
    (rest = s ∧ (parse n (.andLoop result) s).log = []) ∨
      (s ≠ [] ∧ Settled s ∧ (parse n (.andLoop result) s).log ≠ []) := by
  cases n with
  | zero => exact absurd h not_ok_fail
  | succ n =>
    rw [parse] at h ⊢
    split at h
    case h_1 afterAnd hword =>
      have hne := ne_nil_of_andThen (parse_notExpr_nil n) h
      refine Or.inr ⟨?_, Or.inr (Or.inr ⟨afterAnd, hne, Or.inl hword⟩), by simp⟩
      rintro rfl
      cases hword
    case h_2 hword =>
      cases h
      exact Or.inl ⟨rfl, rfl⟩

theorem endsUnclosed_append {a b : List (Event eng)} (h : b ≠ []) :
    endsUnclosed (a ++ b) = endsUnclosed b := by
  rw [endsUnclosed, endsUnclosed, List.getLast?_append_of_ne_nil _ h]

theorem keyword_append_none (hword : word = "AND".toList ∨ word = "OR".toList) (hx : Follows x)
    (hrest : Settled rest) (h : keyword word (trimStart rest) = none) :
    keyword word (trimStart (rest ++ x)) = none := by
  obtain ⟨d, w, hcons, hd⟩ : ∃ d w, word = d :: w ∧ toAsciiLowercase ')' ≠ toAsciiLowercase d := by
    obtain rfl | rfl := hword
    · exact ⟨'A', ['N', 'D'], rfl, by decide⟩
    · exact ⟨'O', ['R'], rfl, by decide⟩
  obtain hnil | ⟨y, hparen⟩ | ⟨next, -, hnext⟩ := hrest
  · have htrim : trimStart (rest ++ x) = trimStart x := by
      rw [trimStart, dropWhile_append, if_pos]
      · rfl
      · rw [List.isEmpty_iff]
        exact hnil
    rw [htrim]
    obtain hx | ⟨y, hy⟩ := hx.trimmed
    · rw [hx, keyword_nil]
    · rw [hy]
      exact keyword_cons_none hcons hd y
  · rw [trimStart_append (by rw [hparen]; simp), hparen]
    exact keyword_cons_none hcons hd _
  · -- the other word is there, with another first letter
    obtain ⟨c, t, hs, hc⟩ : ∃ c t, trimStart rest = c :: t ∧
        toAsciiLowercase c ≠ toAsciiLowercase d := by
      obtain rfl | rfl := hword
      · obtain hand | hor := hnext
        · rw [h] at hand
          cases hand
        · obtain ⟨c, t, hs, hc⟩ := keyword_head rfl hor
          obtain ⟨rfl, -⟩ := List.cons.inj hcons
          exact ⟨c, t, hs, by rw [hc]; decide⟩
      · obtain hand | hor := hnext
        · obtain ⟨c, t, hs, hc⟩ := keyword_head rfl hand
          obtain ⟨rfl, -⟩ := List.cons.inj hcons
          exact ⟨c, t, hs, by rw [hc]; decide⟩
        · rw [h] at hor
          cases hor
    rw [trimStart_append (by rw [hs]; simp), hs]
    exact keyword_cons_none hcons hc _

theorem comparison_ident_ne_ok (h : ∀ c ∈ s, isIdentChar c = true) (a : Expr eng × List Char) :
    (comparison s : Parsed eng).outcome ≠ .ok a := by
  intro hok
  obtain ⟨field, op, valueAt, text, value, hhead, -⟩ := @comparison_eq_ok eng s a.2 a.1 hok
  obtain ⟨afterField, afterOp, hfield, hop, -⟩ := comparisonHead_eq_ok hhead
  have hspace : multispace0 s = s := by
    cases s with
    | nil => rfl
    | cons c s =>
      apply dropWhile_cons_of_neg
      intro hc
      have hident := not_isIdentChar_of_isStop
        (by rw [isStop, isStop_of_isMultispace hc]; rfl : isStop c = true)
      rw [h c (mem_cons_self ..)] at hident
      cases hident
  have hheader : headerFieldPrefix.isPrefixOf s = false := by
    rw [Bool.eq_false_iff]
    intro hisPrefix
    have hdot := h '.' (( isPrefixOf_iff_prefix.mp hisPrefix).subset (by decide))
    cases hdot
  have hidentifier : identifier s = (s, []) := by
    unfold identifier
    dsimp only
    rw [dropWhile_eq_nil_iff.mpr h, takeWhile_eq_self_iff.mpr h]
  have hrest : afterField = [] := by
    rw [hspace] at hfield
    unfold parseField at hfield
    rw [hheader, if_neg Bool.false_ne_true, hidentifier] at hfield
    dsimp only at hfield
    split_ifs at hfield
    split at hfield
    case h_1 => cases hfield; rfl
    case h_2 => cases hfield
  rw [hrest] at hop
  cases hop

theorem keyword_append_none_or (hx : Follows x)
    (hword : ∀ d ∈ word, isStop (toAsciiLowercase d) = false) (h : keyword word s = none) :
    keyword word (s ++ x) = none ∨ eqIgnoreAsciiCase s word = true := by
  obtain ⟨c, t, rfl, hc⟩ := hx.head
  by_cases hlength : word.length ≤ s.length
  · by_cases hmatch : eqIgnoreAsciiCase (s.take word.length) word = true
    · rw [keyword, if_pos hmatch] at h
      cases hdrop : s.drop word.length with
      | nil =>
        rw [drop_eq_nil_iff] at hdrop
        rw [take_of_length_le hdrop] at hmatch
        exact Or.inr hmatch
      | cons d u =>
        rw [hdrop] at h
        dsimp only at h
        split at h
        case isTrue => cases h
        case isFalse hd =>
          refine Or.inl ?_
          rw [keyword, take_append_of_le_length hlength, if_pos hmatch,
            drop_append_of_le_length hlength, hdrop, cons_append]
          dsimp only
          rw [if_neg hd]
    · refine Or.inl ?_
      rw [keyword, take_append_of_le_length hlength, if_neg hmatch]
  · refine Or.inl ?_
    rw [keyword, if_neg]
    intro hmatch
    rw [eqIgnoreAsciiCase, beq_iff_eq] at hmatch
    obtain ⟨k, hk⟩ : ∃ k, word.length = s.length + (k + 1) := ⟨word.length - s.length - 1, by omega⟩
    have hmem : c ∈ (s ++ c :: t).take word.length := by
      rw [hk, take_length_add_append]
      simp
    have hlower := List.mem_map_of_mem (f := toAsciiLowercase) hmem
    rw [hmatch, isStop_lower hc] at hlower
    obtain ⟨d, hd, heq⟩ := List.mem_map.mp hlower
    have hstop := hword d hd
    rw [heq, hc] at hstop
    cases hstop

theorem isIdentChar_of_not (h : eqIgnoreAsciiCase s "NOT".toList = true) :
    ∀ c ∈ s, isIdentChar c = true := by
  intro c hc
  rw [eqIgnoreAsciiCase, beq_iff_eq] at h
  have hmem : toAsciiLowercase c ∈ "NOT".toList.map toAsciiLowercase := h ▸ List.mem_map_of_mem hc
  by_cases hupper : isAsciiUppercase c = true
  · rw [isIdentChar, isAsciiAlphanumeric, hupper]
    simp
  · rw [toAsciiLowercase, if_neg hupper] at hmem
    have hletters : ∀ d ∈ "NOT".toList.map toAsciiLowercase, isIdentChar d = true :=
      all_iff_forall_prop.mp (by decide)
    exact hletters c hmem

theorem parse_atom_ident_ne_ok (h : ∀ c ∈ s, isIdentChar c = true) (n : ℕ)
    (a : Expr eng × List Char) : (parse n .atom s).outcome ≠ .ok a := by
  have hspace : ∀ c ∈ multispace0 s, isIdentChar c = true :=
    fun c hc => h c ((multispace0_suffix s).subset hc)
  cases n with
  | zero => exact not_ok_fail
  | succ n =>
    rw [parse]
    split
    case h_1 inner hopen =>
      have hparen := hspace '(' (by rw [hopen]; exact mem_cons_self ..)
      cases hparen
    case h_2 => exact comparison_ident_ne_ok hspace a

theorem sealed_of_append {a b : List (Event eng)} {mid : List Char}
    (hsealed : Sealed (a ++ b) rest x) (hloop : (rest = mid ∧ b = []) ∨ (mid ≠ [] ∧ b ≠ [])) :
    Sealed a mid x ∧ Sealed b rest x := by
  obtain ⟨rfl, rfl⟩ | ⟨hmid, hb⟩ := hloop
  · rw [append_nil] at hsealed
    exact ⟨hsealed, Or.inr (Or.inr rfl)⟩
  · rw [Sealed, endsUnclosed_append hb] at hsealed
    exact ⟨Or.inl hmid, hsealed⟩

/-- A run and the loop behind it are each the same in front of more text, so that both together
are. -/
theorem andThen_append {p p' : Parsed eng} {loop g : Expr eng × List Char → Parsed eng}
    {e : Expr eng} (h : (p.andThen loop).outcome = .ok (e, rest)) (hrest : Settled rest)
    (hsealed : Sealed (p.andThen loop).log rest x)
    (hcases : ∀ a e rest, (loop a).outcome = .ok (e, rest) →
      (rest = a.2 ∧ (loop a).log = []) ∨ (a.2 ≠ [] ∧ Settled a.2 ∧ (loop a).log ≠ []))
    (hp : ∀ a, p.outcome = .ok a → Settled a.2 → Sealed p.log a.2 x →
      p' = ⟨p.log, .ok (a.1, a.2 ++ x)⟩)
    (hloop : ∀ a e rest, (loop a).outcome = .ok (e, rest) → Settled rest →
      Sealed (loop a).log rest x → g (a.1, a.2 ++ x) = ⟨(loop a).log, .ok (e, rest ++ x)⟩) :
    p'.andThen g = ⟨(p.andThen loop).log, .ok (e, rest ++ x)⟩ := by
  obtain ⟨a, ha, hend, hlog⟩ := Logged.exists_of_andThen h
  have hsplit := hcases a e rest hend
  rw [hlog] at hsealed
  obtain ⟨hfirst, hsecond⟩ := sealed_of_append hsealed
    (hsplit.imp_right (fun hgo => ⟨hgo.1, hgo.2.2⟩))
  have hmid : Settled a.2 := by
    obtain ⟨hstop, -⟩ | ⟨-, hsettled, -⟩ := hsplit
    · exact hstop ▸ hrest
    · exact hsettled
  rw [hp a ha hmid hfirst, Logged.andThen_of_ok rfl, hloop a e rest hend hrest hsecond, hlog]
  rfl

theorem Sealed.of_text {cs : List Char} {log : List (Event eng)}
    (h : Sealed (.text cs :: log) rest x) : Sealed log rest x := by
  cases log with
  | nil => exact Or.inr (Or.inr rfl)
  | cons ev log =>
    have hlast : endsUnclosed (.text cs :: ev :: log) = endsUnclosed (ev :: log) :=
      endsUnclosed_append (a := [.text cs]) (cons_ne_nil ev log)
    rw [Sealed, hlast] at h
    exact h

theorem settled_of_multispace0 {rest y : List Char} (h : multispace0 rest = ')' :: y) :
    Settled rest := by
  refine Or.inr (Or.inl ⟨y, ?_⟩)
  have hsplit : rest.takeWhile isMultispace ++ ')' :: y = rest := by
    rw [← h]
    exact takeWhile_append_dropWhile
  rw [← hsplit, trimStart, dropWhile_append_of_pos]
  · exact dropWhile_cons_of_neg (by decide)
  · exact fun c hc => isStop_of_isMultispace (mem_takeWhile_imp hc)

theorem closeParen_append {p a : Expr eng × List Char} (h : (closeParen p).outcome = .ok a) :
    closeParen (p.1, p.2 ++ x) = ⟨(closeParen p).log, .ok (a.1, a.2 ++ x)⟩ ∧ Settled p.2 ∧
      p.2 ≠ [] := by
  unfold closeParen at h ⊢
  split at h
  case h_1 rest hclose =>
    cases h
    have hne : multispace0 p.2 ≠ [] := by rw [hclose]; exact cons_ne_nil _ _
    refine ⟨?_, settled_of_multispace0 hclose, ?_⟩
    · dsimp only
      rw [multispace0_append hne, hclose]
      have hsuffix : ')' :: rest <:+ p.2 := hclose ▸ multispace0_suffix p.2
      have hconsumed := consumed_append_append hsuffix x
      rw [cons_append] at hconsumed
      simp only [cons_append, hconsumed]
      rfl
    · intro hnil
      rw [hnil] at hne
      exact hne rfl
  case h_2 => cases h

theorem parse_append {n : ℕ} {rule : Rule eng} {e : Expr eng} (hx : Follows x)
    (h : (parse n rule s).outcome = .ok (e, rest)) (hrest : Settled rest)
    (hsealed : Sealed (parse n rule s).log rest x) :
    parse n rule (s ++ x) = ⟨(parse n rule s).log, .ok (e, rest ++ x)⟩ := by
  induction n generalizing rule s e rest with
  | zero => exact absurd h not_ok_fail
  | succ n ih =>
    cases rule with
    | orExpr =>
      exact andThen_append h hrest hsealed (fun a e rest hloop => orLoop_cases hloop)
        (fun a => ih) (fun a e rest => ih)
    | orLoop result =>
      rw [parse] at h hsealed ⊢
      conv_rhs => rw [parse]
      split at h
      case h_1 afterOr hword =>
        rw [hword] at hsealed
        have hne := ne_nil_of_andThen (parse_andExpr_nil n) h
        have hseq := andThen_append (g := fun p => parse n (.orLoop (.or result p.1)) p.2) h
          hrest (Sealed.of_text hsealed) (fun a e rest => orLoop_cases) (fun a => ih)
          (fun a e rest => ih)
        rw [keyword_trimStart_append hword hne]
        dsimp only
        rw [consumed_append_append ((keyword_suffix hword).trans (trimStart_suffix s)), hseq]
        rfl
      case h_2 hword =>
        cases h
        rw [keyword_append_none (Or.inr rfl) hx hrest hword]
        rfl
    | andExpr =>
      have hne : multispace0 s ≠ [] := ne_nil_of_andThen (parse_notExpr_nil n) h
      have hseq := andThen_append (g := fun p => parse n (.andLoop p.1) p.2) h
        hrest (Sealed.of_text hsealed) (fun a e rest => andLoop_cases) (fun a => ih)
        (fun a e rest => ih)
      rw [parse, parse, multispace0_append hne, hseq, consumed_append_append (multispace0_suffix s)]
      rfl
    | andLoop result =>
      rw [parse] at h hsealed ⊢
      conv_rhs => rw [parse]
      split at h
      case h_1 afterAnd hword =>
        rw [hword] at hsealed
        have hne := ne_nil_of_andThen (parse_notExpr_nil n) h
        have hseq := andThen_append (g := fun p => parse n (.andLoop (.and result p.1)) p.2) h
          hrest (Sealed.of_text hsealed) (fun a e rest => andLoop_cases) (fun a => ih)
          (fun a e rest => ih)
        rw [keyword_trimStart_append hword hne]
        dsimp only
        rw [consumed_append_append ((keyword_suffix hword).trans (trimStart_suffix s)), hseq]
        rfl
      case h_2 hword =>
        cases h
        rw [keyword_append_none (Or.inl rfl) hx hrest hword]
        rfl
    | notExpr =>
      have hne : multispace0 s ≠ [] := by
        intro hnil
        rw [parse, hnil] at h
        exact parse_atom_nil n _ h
      rw [parse] at h hsealed ⊢
      conv_rhs => rw [parse]
      rw [multispace0_append hne]
      split at h
      case h_1 afterNot hword =>
        rw [hword] at hsealed
        obtain ⟨a, ha, hdone, hlog⟩ := Logged.exists_of_andThen h
        cases hdone
        have hafter : afterNot ≠ [] := by
          rintro rfl
          exact parse_atom_nil n a ha
        have hatom := Sealed.of_text hsealed
        rw [hlog, Logged.log_done, append_nil] at hatom
        rw [keyword_append_some hword hafter]
        dsimp only
        rw [consumed_append_append ((keyword_suffix hword).trans (multispace0_suffix s)),
          ih ha hrest hatom, Logged.andThen_of_ok ha]
        rfl
      case h_2 hword =>
        rw [hword] at hsealed
        have hnone : keyword "NOT".toList (multispace0 s ++ x) = none := by
          obtain hnone | hnot :=
            keyword_append_none_or hx (all_iff_forall_prop.mp (by decide)) hword
          · exact hnone
          · exact absurd h (parse_atom_ident_ne_ok (isIdentChar_of_not hnot) n _)
        rw [hnone]
        dsimp only
        rw [ih h hrest (Sealed.of_text hsealed), consumed_append_append (multispace0_suffix s)]
        rfl
    | atom =>
      rw [parse] at h hsealed ⊢
      conv_rhs => rw [parse]
      split at h
      case h_1 inner hopen =>
        have hne : multispace0 s ≠ [] := by rw [hopen]; exact cons_ne_nil _ _
        have hsuffix : '(' :: inner <:+ s := hopen ▸ multispace0_suffix s
        have hconsumed := consumed_append_append hsuffix x
        obtain ⟨a, ha, hclose, hlog⟩ := Logged.exists_of_andThen h
        obtain ⟨happend, hsettled, hmid⟩ := closeParen_append (x := x) hclose
        rw [cons_append] at hconsumed
        rw [multispace0_append hne, hopen]
        simp only [cons_append, hconsumed]
        rw [ih ha hsettled (Or.inl hmid), Logged.andThen_of_ok rfl, happend,
          Logged.andThen_of_ok ha]
        rfl
      case h_2 hopen =>
        have hne : multispace0 s ≠ [] := by
          intro hnil
          rw [hnil] at h
          exact comparison_nil_ne_ok _ h
        have hcomparison := comparison_append hx h hrest (Sealed.of_text (by
          split at hsealed
          case h_1 inner heq => exact absurd heq (hopen inner)
          case h_2 => exact hsealed))
        rw [multispace0_append hne]
        cases hcons : multispace0 s with
        | nil => exact absurd hcons hne
        | cons c t =>
          have hc : c ≠ '(' := by
            rintro rfl
            exact hopen t hcons
          rw [hcons] at hcomparison
          have hsuffix : c :: t <:+ s := hcons ▸ multispace0_suffix s
          have hconsumed := consumed_append_append hsuffix x
          split
          case h_1 inner heq => exact absurd (List.cons.inj heq).1 hc
          case h_2 =>
            rw [hcomparison, hconsumed]
            rfl

end Sipnab.Dsl
