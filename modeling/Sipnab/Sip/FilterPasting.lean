import Sipnab.Sip.FilterComposition

/-!
# Windows and references

The source of a filter with a window of time is the text of the filter in parentheses with `time`
comparisons behind it, and a reference is replaced by the text it stands for in parentheses. Both
are read back as what they were made from when the text in parentheses is.
-/

namespace Sipnab.Dsl

open Text Nesting List

variable {eng : Engines} {s : List Char} {f : FilterExpr eng}

/-! ## Texts without references -/

def RefFree : RefScan → List Char → Prop
  | _, [] => True
  | st, c :: rest => refLength st c rest = 0 ∧ RefFree (refStep st c rest) rest

theorem referenceSpansFrom_eq_nil_iff (i : ℕ) (st : RefScan) (s : List Char) :
    referenceSpansFrom i st s = [] ↔ RefFree st s := by
  induction s generalizing i st with
  | nil => exact ⟨fun _ => trivial, fun _ => rfl⟩
  | cons c s ih =>
    rw [referenceSpansFrom, RefFree]
    by_cases hzero : refLength st c s = 0
    · rw [if_pos hzero, ih]
      exact ⟨fun h => ⟨hzero, h⟩, fun h => h.2⟩
    · rw [if_neg hzero]
      exact ⟨(fun h => by cases h), fun h => absurd h.1 hzero⟩

theorem firstReference_eq_none_iff (s : List Char) :
    firstReference s = none ↔ RefFree ⟨none, none, 0⟩ s := by
  rw [firstReference, Option.map_eq_none_iff, List.head?_eq_none_iff, referenceSpans,
    referenceSpansFrom_eq_nil_iff]

variable {c : Char} {t : ℤ} {op : Operator} {parts : List (Operator × ℤ)} {after before : Option ℤ}

theorem refLength_of_ne (h : c ≠ '@') (st : RefScan) (rest : List Char) :
    refLength st c rest = 0 := by
  rw [refLength, if_neg]
  exact fun hall => h hall.2.2.1

theorem refFree_of_not_mem {s : List Char} (h : '@' ∉ s) (st : RefScan) : RefFree st s := by
  induction s generalizing st with
  | nil => trivial
  | cons c s ih =>
    rw [mem_cons, not_or] at h
    exact ⟨refLength_of_ne (Ne.symm h.1) st s, ih h.2 _⟩

theorem RefFree.append {st : RefScan} (h : RefFree st s) (hc : isNameChar c = false)
    {x : List Char} (hx : '@' ∉ c :: x) : RefFree st (s ++ c :: x) := by
  induction s generalizing st with
  | nil => exact refFree_of_not_mem hx st
  | cons d s ih =>
    have hsame : refLength st d (s ++ c :: x) = refLength st d s := by
      rw [refLength, refLength, takeWhile_append_stop hc]
    have hstep : refStep st d (s ++ c :: x) = refStep st d s := by
      rw [refStep, refStep, hsame]
    rw [cons_append]
    exact ⟨hsame.trans h.1, by rw [hstep]; exact ih h.2⟩

theorem RefFree.behind_paren (h : RefFree ⟨none, none, 0⟩ s) : RefFree ⟨none, some '(', 0⟩ s := by
  cases s with
  | nil => trivial
  | cons c s =>
    have hsame : refLength ⟨none, some '(', 0⟩ c s = refLength ⟨none, none, 0⟩ c s := rfl
    exact ⟨hsame.trans h.1, h.2⟩

theorem firstReference_groupText {y : List Char} (h : firstReference s = none) (hy : '@' ∉ y) :
    firstReference (groupText s y) = none := by
  rw [firstReference_eq_none_iff] at h ⊢
  refine ⟨rfl, ?_⟩
  apply h.behind_paren.append (by decide)
  rw [mem_cons, not_or]
  exact ⟨by decide, hy⟩

/-! ## Comparisons of `time` -/

/-- An instant whose text is read back, and is made of the characters of an RFC 3339 instant. -/
structure Readable (eng : Engines) (t : ℤ) : Prop where
  read : eng.parseInstant (eng.toRfc3339 t) = some t
  chars : ∀ c ∈ eng.toRfc3339 t, (isAsciiDigit c || "-:.TZ+".toList.contains c) = true

theorem Readable.not_mem (h : Readable eng t)
    (hc : (isAsciiDigit c || "-:.TZ+".toList.contains c) = false) : c ∉ eng.toRfc3339 t := by
  intro hmem
  rw [h.chars c hmem] at hc
  cases hc

theorem scanQuotedString_plain {quote : Char} {text : List Char} (hquote : quote ∉ text)
    (hback : '\\' ∉ text) (hne : quote ≠ '\\') (y : List Char) :
    scanQuotedString quote (text ++ quote :: y) = some (text, y) := by
  induction text with
  | nil =>
    rw [nil_append, scanQuotedString, if_pos rfl]
    · exact fun hq => absurd hq hne
    · exact fun _ _ hq => absurd hq hne
  | cons c text ih =>
    rw [mem_cons, not_or] at hquote hback
    rw [cons_append, scanQuotedString, if_neg (Ne.symm hquote.1), ih hquote.2 hback.2]
    · rfl
    · exact fun hc => absurd hc (Ne.symm hback.1)
    · exact fun _ _ hc => absurd hc (Ne.symm hback.1)

theorem parseField_time (z : List Char) :
    parseField ("time".toList ++ ' ' :: z) = .ok (.time, ' ' :: z) := by
  have hheader : headerFieldPrefix.isPrefixOf ("time".toList ++ ' ' :: z) = false := rfl
  have hident : identifier ("time".toList ++ ' ' :: z) = ("time".toList, ' ' :: z) := rfl
  have hname : fieldNames.lookup "time".toList = some .time := by decide +kernel
  rw [parseField, hheader, if_neg Bool.false_ne_true, hident]
  dsimp only
  rw [hname, if_neg (by decide)]

theorem comparisonHead_time {word z : List Char}
    (hword : (word, op) = (">=".toList, .ge) ∨ (word, op) = ("<".toList, .lt)) :
    comparisonHead ("time ".toList ++ word ++ ' ' :: '\'' :: z) = .ok (.time, op, '\'' :: z) := by
  have hfield : parseField (multispace0 ("time ".toList ++ word ++ ' ' :: '\'' :: z)) =
      .ok (.time, ' ' :: (word ++ ' ' :: '\'' :: z)) := by
    have hstart : multispace0 ("time ".toList ++ word ++ ' ' :: '\'' :: z) =
        "time".toList ++ ' ' :: (word ++ ' ' :: '\'' :: z) := rfl
    rw [hstart, parseField_time]
  unfold comparisonHead
  rw [hfield]
  dsimp only [bind, Except.bind]
  obtain hword | hword := hword
  · cases hword
    rfl
  · cases hword
    rfl

def timeSource (eng : Engines) (op : Operator) (t : ℤ) : List Char :=
  if op = .ge then afterSource eng t else beforeSource eng t

theorem afterSource_append (t : ℤ) (y : List Char) : afterSource eng t ++ y =
    "time ".toList ++ ">=".toList ++ ' ' :: '\'' :: (eng.toRfc3339 t ++ '\'' :: y) := by
  unfold afterSource
  generalize eng.toRfc3339 t = text
  exact append_assoc _ _ _ |>.trans (append_assoc _ _ _)

theorem beforeSource_append (t : ℤ) (y : List Char) : beforeSource eng t ++ y =
    "time ".toList ++ "<".toList ++ ' ' :: '\'' :: (eng.toRfc3339 t ++ '\'' :: y) := by
  unfold beforeSource
  generalize eng.toRfc3339 t = text
  exact append_assoc _ _ _ |>.trans (append_assoc _ _ _)

theorem comparison_time (hop : op = .ge ∨ op = .lt) (h : Readable eng t) (y : List Char) :
    (comparison (timeSource eng op t ++ y) : Parsed eng).outcome =
      .ok (.compare .time op (.instant t), y) := by
  have hhead : comparisonHead (timeSource eng op t ++ y) =
      .ok (.time, op, '\'' :: (eng.toRfc3339 t ++ '\'' :: y)) := by
    obtain rfl | rfl := hop
    · rw [show timeSource eng .ge t = afterSource eng t from rfl, afterSource_append,
        comparisonHead_time (Or.inl rfl)]
    · rw [show timeSource eng .lt t = beforeSource eng t from rfl, beforeSource_append,
        comparisonHead_time (Or.inr rfl)]
  have htext : valueText ('\'' :: (eng.toRfc3339 t ++ '\'' :: y)) op =
      .ok (eng.toRfc3339 t, y) := by
    rw [valueText, if_pos (by decide), scanQuotedString_plain (h.not_mem (by decide))
      (h.not_mem (by decide)) (by decide)]
  have hread : readValue ('\'' :: (eng.toRfc3339 t ++ '\'' :: y)) (eng.toRfc3339 t) .time op =
      .ok (Value.instant t : Value eng) := by
    obtain rfl | rfl := hop
    · rw [readValue, if_neg (by decide)]
      dsimp only [Field.valueKind]
      rw [h.read]
    · rw [readValue, if_neg (by decide)]
      dsimp only [Field.valueKind]
      rw [h.read]
  rw [comparison_of_parts hhead htext hread]

theorem timeSource_head {op : Operator} (hop : op = .ge ∨ op = .lt) (t : ℤ) (y : List Char) :
    ∃ z, timeSource eng op t ++ y = 't' :: z := by
  obtain rfl | rfl := hop
  · exact ⟨_, afterSource_append t y⟩
  · exact ⟨_, beforeSource_append t y⟩

theorem parse_notExpr_time (hop : op = .ge ∨ op = .lt) (h : Readable eng t) (n : ℕ)
    (y : List Char) :
    (parse (n + 2) .notExpr (timeSource eng op t ++ y) : Parsed eng).outcome =
      .ok (.compare .time op (.instant t), y) := by
  have hcomparison := comparison_time hop h y
  obtain ⟨z, hz⟩ := @timeSource_head eng op hop t y
  rw [hz] at hcomparison ⊢
  have hword : keyword "NOT".toList ('t' :: z) = none := keyword_cons_none rfl (by decide) z
  have hatom : (parse (n + 1) .atom ('t' :: z) : Parsed eng).outcome =
      (comparison ('t' :: z) : Parsed eng).outcome := by
    rw [parse, multispace0_cons rfl]
    rfl
  rw [parse, multispace0_cons rfl, hword]
  exact hatom.trans hcomparison

theorem parse_andLoop_time (hop : op = .ge ∨ op = .lt) (h : Readable eng t) (n : ℕ)
    (result : Expr eng) (y : List Char) :
    (parse (n + 3) (.andLoop result) (andTail (timeSource eng op t ++ y)) : Parsed eng).outcome =
      (parse (n + 2) (.andLoop (.and result (.compare .time op (.instant t)))) y).outcome := by
  have hnot := parse_notExpr_time hop h n y
  obtain ⟨z, hz⟩ := @timeSource_head eng op hop t y
  rw [hz] at hnot ⊢
  rw [parse_andLoop_tail rfl, Logged.andThen_of_ok hnot]
  rfl

/-! ## Windows -/

def windowParts (after before : Option ℤ) : List (Operator × ℤ) :=
  (after.map (Operator.ge, ·)).toList ++ (before.map (Operator.lt, ·)).toList

def joinWindow (result : Expr eng) (parts : List (Operator × ℤ)) : Expr eng :=
  parts.foldl (fun e part => .and e (.compare .time part.1 (.instant part.2))) result

def partsTail (eng : Engines) : List (Operator × ℤ) → List Char
  | [] => []
  | part :: parts => andTail (timeSource eng part.1 part.2 ++ partsTail eng parts)

theorem andTail_windowSource {after before : Option ℤ} (h : windowParts after before ≠ []) :
    andTail (windowSource eng after before) = partsTail eng (windowParts after before) := by
  cases after with
  | none =>
    cases before with
    | none => exact absurd rfl h
    | some b => simp [windowSource, windowParts, partsTail, timeSource, List.intercalate]
  | some a =>
    cases before with
    | none => simp [windowSource, windowParts, partsTail, timeSource, List.intercalate]
    | some b => simp [windowSource, windowParts, partsTail, timeSource, List.intercalate, andTail]

def PartsReadable (eng : Engines) (parts : List (Operator × ℤ)) : Prop :=
  ∀ part ∈ parts, (part.1 = .ge ∨ part.1 = .lt) ∧ Readable eng part.2

theorem parse_andLoop_parts (h : PartsReadable eng parts) (n : ℕ) (result : Expr eng) :
    (parse (n + 2 * parts.length + 2) (.andLoop result) (partsTail eng parts)).outcome =
      .ok (joinWindow result parts, []) := by
  induction parts generalizing n result with
  | nil => exact (loop_nil_iff (n := n + 1) (Or.inr rfl)).mpr rfl
  | cons part parts ih =>
    obtain ⟨hop, hread⟩ := h part (mem_cons_self ..)
    have hfuel : n + 2 * (part :: parts).length + 2 = (n + 1 + 2 * parts.length) + 3 := by
      rw [length_cons]
      omega
    rw [hfuel, partsTail, parse_andLoop_time hop hread,
      ih (fun p hp => h p (mem_cons_of_mem part hp)) (n + 1)]
    rfl

theorem partsTail_leaves (h : PartsReadable eng parts) {n : ℕ} {result : Expr eng}
    {a : Expr eng × List Char}
    (ha : (parse n (.andLoop result) (partsTail eng parts)).outcome = .ok a) :
    a = (joinWindow result parts, []) := by
  have hfuel := parse_of_le (Ended.of_ok ha) (Nat.le_add_right n (2 * parts.length + 2))
  rw [← hfuel, ← Nat.add_assoc, parse_andLoop_parts h] at ha
  exact (Except.ok.inj ha).symm

theorem detached_partsTail (parts : List (Operator × ℤ)) : Detached (partsTail eng parts) := by
  cases parts with
  | nil => exact Or.inl rfl
  | cons part parts => exact detached_andTail _

theorem timeSource_eq (op : Operator) (t : ℤ) :
    ∃ w, (w = "time >= '".toList ∨ w = "time < '".toList) ∧
      timeSource eng op t = w ++ (eng.toRfc3339 t ++ ['\'']) := by
  unfold timeSource afterSource beforeSource
  generalize eng.toRfc3339 t = text
  split
  · exact ⟨_, Or.inl rfl, append_assoc _ _ _⟩
  · exact ⟨_, Or.inr rfl, append_assoc _ _ _⟩

theorem partsTail_chars (h : PartsReadable eng parts) :
    ∀ c ∈ partsTail eng parts, c ≠ '@' ∧ parenMark c = none := by
  have hand : ∀ c ∈ " AND ".toList, c ≠ '@' ∧ parenMark c = none :=
    all_iff_forall_prop.mp (by decide)
  have htime : ∀ w, w = "time >= '".toList ∨ w = "time < '".toList →
      ∀ c ∈ w, c ≠ '@' ∧ parenMark c = none := by
    rintro w (rfl | rfl)
    · exact all_iff_forall_prop.mp (by decide)
    · exact all_iff_forall_prop.mp (by decide)
  induction parts with
  | nil => exact fun c hc => by cases hc
  | cons part parts ih =>
    obtain ⟨hop, hread⟩ := h part (mem_cons_self ..)
    have htext : ∀ c ∈ eng.toRfc3339 part.2, c ≠ '@' ∧ parenMark c = none := by
      intro c hc
      have hplain := parenMark_of (p := fun c => isAsciiDigit c || "-:.TZ+".toList.contains c)
        (by decide) (by decide) c (hread.chars c hc)
      refine ⟨?_, hplain⟩
      rintro rfl
      exact hread.not_mem (by decide) hc
    intro c hc
    rw [partsTail, andTail, mem_append, mem_append] at hc
    obtain hc | hc | hc := hc
    · exact hand c hc
    · obtain ⟨w, hw, heq⟩ := @timeSource_eq eng part.1 part.2
      rw [heq, mem_append, mem_append] at hc
      obtain hc | hc | hc := hc
      · exact htime w hw c hc
      · exact htext c hc
      · obtain rfl := mem_singleton.mp hc
        exact ⟨by decide, by decide⟩
    · exact ih (fun p hp => h p (mem_cons_of_mem part hp)) c hc

theorem partsTail_last {parts : List (Operator × ℤ)} (h : parts ≠ []) :
    ∃ l, partsTail eng parts = l ++ ['\''] := by
  induction parts with
  | nil => exact absurd rfl h
  | cons part parts ih =>
    by_cases hparts : parts = []
    · subst hparts
      obtain ⟨w, -, heq⟩ := @timeSource_eq eng part.1 part.2
      exact ⟨" AND ".toList ++ (w ++ eng.toRfc3339 part.2), by simp [partsTail, andTail, heq]⟩
    · obtain ⟨l, hl⟩ := ih hparts
      exact ⟨" AND ".toList ++ (timeSource eng part.1 part.2 ++ l), by
        simp [partsTail, andTail, hl]⟩

theorem length_partsTail (parts : List (Operator × ℤ)) :
    3 * parts.length ≤ (partsTail eng parts).length := by
  induction parts with
  | nil => exact le_rfl
  | cons part parts ih =>
    have hand : " AND ".toList.length = 5 := rfl
    rw [partsTail, andTail, length_append, length_append, length_cons, hand]
    omega

/-- The source of the filter with a window is read as what it was made from when the text of the
filter can be pasted. -/
theorem parseOrExpr_window (h : Accepted s f) (hparts : PartsReadable eng parts)
    (c : Expr eng × List Char) :
    (parseOrExpr (groupText s (partsTail eng parts)) : Parsed eng).outcome = .ok c ↔
      pastable eng s = true ∧ c = (joinWindow f.root parts, []) := by
  have hlength : (trim s).length + 2 + 3 * parts.length ≤
      (groupText s (partsTail eng parts)).length := by
    have hsplit := congrArg List.length (leading_append_trim s)
    have htail := @length_partsTail eng parts
    rw [length_append, length_append] at hsplit
    simp only [groupText, length_cons, length_append]
    omega
  obtain ⟨n, hn⟩ : ∃ n, fuelFor (groupText s (partsTail eng parts)) =
      n + 2 * parts.length + 2 + 2 :=
    ⟨fuelFor (groupText s (partsTail eng parts)) - (2 * parts.length + 4), by
      simp only [fuelFor]; omega⟩
  have hns : fuelFor (trim s) ≤ n + 2 * parts.length := by simp only [fuelFor] at hn ⊢; omega
  rw [parseOrExpr, hn, groupText, parse_orExpr_iff rfl]
  constructor
  · rintro ⟨a, b, ha, hloop, hend⟩
    rw [parse_notExpr_paren] at ha
    obtain ⟨hpaste, rfl⟩ := h.pastable_of_group (detached_partsTail parts)
      (fun m result e rest hrest => congrArg Prod.snd (partsTail_leaves hparts hrest)) ha
    obtain rfl := partsTail_leaves hparts hloop
    exact ⟨hpaste, (loop_nil_iff (Or.inl rfl)).mp hend⟩
  · rintro ⟨hpaste, rfl⟩
    have hfirst := h.parse_group hpaste hns (partsTail eng parts)
    rw [← parse_notExpr_paren] at hfirst
    exact ⟨_, _, hfirst, parse_andLoop_parts hparts n f.root,
      (loop_nil_iff (n := n + 2 * parts.length + 2) (Or.inl rfl)).mpr rfl⟩

theorem parseOrExpr_parts {part : Operator × ℤ} (h : PartsReadable eng (part :: parts)) :
    (parseOrExpr (timeSource eng part.1 part.2 ++ partsTail eng parts) : Parsed eng).outcome =
      .ok (joinWindow (.compare .time part.1 (.instant part.2)) parts, []) := by
  obtain ⟨hop, hread⟩ := h part (mem_cons_self ..)
  have hparts : PartsReadable eng parts := fun p hp => h p (mem_cons_of_mem part hp)
  obtain ⟨z, hz⟩ := @timeSource_head eng part.1 hop part.2 (partsTail eng parts)
  obtain ⟨n, hn⟩ : ∃ n, fuelFor (timeSource eng part.1 part.2 ++ partsTail eng parts) =
      n + 2 * parts.length + 2 + 2 := by
    have htail := @length_partsTail eng parts
    refine ⟨fuelFor (timeSource eng part.1 part.2 ++ partsTail eng parts) -
      (2 * parts.length + 4), ?_⟩
    simp only [fuelFor, length_append]
    omega
  have hfirst := parse_notExpr_time hop hread (n + 2 * parts.length) (partsTail eng parts)
  rw [parseOrExpr, hn]
  rw [hz] at hfirst ⊢
  exact (parse_orExpr_iff rfl).mpr ⟨_, _, hfirst, parse_andLoop_parts hparts n _,
    (loop_nil_iff (n := n + 2 * parts.length + 2) (Or.inl rfl)).mpr rfl⟩

/-! ## What the source of a filter selects -/

/-- The source of a filter is accepted and selects what the filter does. -/
def Reproduces (w : FilterExpr eng) : Prop :=
  ∃ g, FilterExpr.parse w.source = .ok g ∧
    ∀ (Dialog : Type) (readings : Readings eng Dialog) (dialog : Dialog),
      g.matchesDialog readings dialog = w.matchesDialog readings dialog

theorem partsReadable_windowParts (h : ∀ t, t ∈ after.toList ++ before.toList → Readable eng t) :
    PartsReadable eng (windowParts after before) := by
  intro part hpart
  rw [windowParts, mem_append] at hpart
  obtain hpart | hpart := hpart
  · cases after with
    | none => cases hpart
    | some a =>
      obtain rfl : part = (.ge, a) := by simpa using hpart
      exact ⟨Or.inl rfl, h a (by simp)⟩
  · cases before with
    | none => cases hpart
    | some b =>
      obtain rfl : part = (.lt, b) := by simpa using hpart
      exact ⟨Or.inr rfl, h b (by simp)⟩

theorem evalExpr_joinWindow {Dialog : Type} (readings : Readings eng Dialog)
    (diag : MediaDiagnosis) (dialog : Dialog) (result : Expr eng)
    (parts : List (Operator × ℤ)) :
    evalExpr readings diag dialog (joinWindow result parts) =
      (evalExpr readings diag dialog result && parts.all (fun part =>
        compareInstant (readings.createdAt dialog) part.1 (.instant part.2 : Value eng))) := by
  induction parts generalizing result with
  | nil => exact (Bool.and_true _).symm
  | cons part parts ih =>
    have hfold : joinWindow result (part :: parts) =
        joinWindow (.and result (.compare .time part.1 (.instant part.2))) parts := rfl
    rw [hfold, ih, all_cons, ← Bool.and_assoc]
    rfl

theorem all_windowParts (t : ℤ) (after before : Option ℤ) :
    (windowParts after before).all (fun part =>
      compareInstant t part.1 (.instant part.2 : Value eng)) = inTimeWindow t after before := by
  cases after <;> cases before <;> simp [windowParts, inTimeWindow, compareInstant]

theorem countNodes_joinWindow (result : Expr eng) (parts : List (Operator × ℤ)) :
    (joinWindow result parts).countNodes = result.countNodes + 2 * parts.length := by
  induction parts generalizing result with
  | nil => rfl
  | cons part parts ih =>
    have hfold : joinWindow result (part :: parts) =
        joinWindow (.and result (.compare .time part.1 (.instant part.2))) parts := rfl
    have hcount : (Expr.and result (.compare .time part.1 (.instant part.2))).countNodes =
        result.countNodes + 1 + 1 := rfl
    rw [hfold, ih, hcount, length_cons]
    omega

theorem blanks_of_trim (s : List Char) : leading (trim s) = [] ∧ trailing (trim s) = [] := by
  have hsplit := congrArg List.length (leading_append_trim (trim s))
  rw [trim_trim, length_append, length_append] at hsplit
  exact ⟨eq_nil_of_length_eq_zero (by omega), eq_nil_of_length_eq_zero (by omega)⟩

theorem pastable_trim (s : List Char) : pastable eng (trim s) = true ↔
    endsUnclosed (parseOrExpr (trim s) : Parsed eng).log = false := by
  obtain ⟨hlead, htrail⟩ := blanks_of_trim s
  rw [pastable, hlead, htrail, trim_trim]
  simp

theorem Accepted.of_trim (h : Accepted s f) : Accepted (trim s) f := by
  refine ⟨?_, ?_, ?_, ?_, h.nodes, h.diagnosis, ?_⟩
  · rw [trim_trim]; exact h.nonempty
  · rw [trim_trim]; exact h.references
  · rw [trim_trim]; exact h.nesting
  · rw [trim_trim]; exact h.parsed
  · rw [trim_trim]; exact h.source

theorem length_windowParts_le (after before : Option ℤ) :
    (windowParts after before).length ≤ 2 := by
  cases after <;> cases before <;> simp [windowParts]

theorem checkNestingDepth_window (h : PartsReadable eng parts)
    (hdepth : peak parenMark 0 s < maxNestingDepth) :
    checkNestingDepth (groupText s (partsTail eng parts)) = true := by
  have hgroup := peak_groupText 0 s (partsTail eng parts)
  rw [peak_of_none (fun c hc => (partsTail_chars h c hc).2)] at hgroup
  rw [checkNestingDepth_iff]
  exact hgroup.trans (by omega)

theorem trim_window (h : parts ≠ []) (s : List Char) :
    trim (groupText s (partsTail eng parts)) = groupText s (partsTail eng parts) := by
  obtain ⟨l, hl⟩ := @partsTail_last eng parts h
  have hcons : groupText s (partsTail eng parts) = '(' :: ((s ++ ')' :: l) ++ ['\'']) := by
    rw [groupText, hl]
    simp
  rw [hcons]
  exact trim_cons_append (by decide) (by decide) _

/-- The source of a filter with a window selects what that filter does exactly when the last value
of the filter does not take a `)` behind it. -/
theorem reproduces_window_iff (hs : FilterExpr.parse s = .ok f)
    (hwindow : after ≠ none ∨ before ≠ none)
    (hread : ∀ t ∈ after.toList ++ before.toList, Readable eng t)
    (hdepth : peak parenMark 0 (trim s) < maxNestingDepth)
    (hnodes : f.root.countNodes + 4 ≤ maxExpressionNodes) :
    (∃ w, FilterExpr.withTimeWindow (some f) after before = some w ∧ Reproduces w) ↔
      endsUnclosed (parseOrExpr (trim s) : Parsed eng).log = false := by
  have h := (parse_eq_ok_iff.mp hs).of_trim
  have hparts := partsReadable_windowParts hread
  have hne : windowParts after before ≠ [] := by
    intro hnil
    rw [windowParts, append_eq_nil_iff] at hnil
    obtain hafter | hbefore := hwindow
    · exact hafter (by simpa using hnil.1)
    · exact hbefore (by simpa using hnil.2)
  have hsome : FilterExpr.withTimeWindow (some f) after before = some
      { root := .and f.root (.window after before)
        needsDiagnosis := f.needsDiagnosis
        source := groupText (trim s) (partsTail eng (windowParts after before)) } := by
    have hnone : ¬ (after.isNone && before.isNone) = true := by
      rw [Bool.and_eq_true, Option.isNone_iff_eq_none, Option.isNone_iff_eq_none]
      rintro ⟨hafter, hbefore⟩
      exact hwindow.elim (fun hne => hne hafter) (fun hne => hne hbefore)
    rw [FilterExpr.withTimeWindow, if_neg hnone, ← andTail_windowSource hne, h.source, trim_trim]
    simp [groupText, andTail]
  rw [← pastable_trim, hsome]
  constructor
  · rintro ⟨w, hw, g, hg, -⟩
    cases hw
    have hparsed := (parse_eq_ok_iff.mp hg).parsed
    rw [trim_window hne] at hparsed
    exact ((parseOrExpr_window h hparts _).mp hparsed).1
  · intro hpaste
    refine ⟨_, rfl, { root := joinWindow f.root (windowParts after before)
                      needsDiagnosis :=
                        (joinWindow f.root (windowParts after before)).referencesDiagnosis
                      source := groupText (trim s) (partsTail eng (windowParts after before)) },
      parse_eq_ok_iff.mpr ⟨?_, ?_, ?_, ?_, ?_, rfl, ?_⟩, ?_⟩
    · rw [trim_window hne]
      exact cons_ne_nil _ _
    · rw [trim_window hne]
      refine firstReference_groupText ?_ (fun hmem => (partsTail_chars hparts _ hmem).1 rfl)
      have href := h.references
      rwa [trim_trim] at href
    · rw [trim_window hne]
      exact checkNestingDepth_window hparts hdepth
    · rw [trim_window hne]
      exact (parseOrExpr_window h hparts _).mpr ⟨hpaste, rfl⟩
    · have hlength := length_windowParts_le after before
      rw [countNodes_joinWindow]
      omega
    · exact (trim_window hne _).symm
    · intro Dialog readings dialog
      rw [matchesDialog_eq readings rfl, matchesDialog_eq readings, evalExpr_joinWindow,
        all_windowParts]
      · rfl
      · exact h.diagnosis.trans (Bool.or_false _).symm

theorem parts_ends (part : Operator × ℤ) (parts : List (Operator × ℤ)) :
    ∃ l, timeSource eng part.1 part.2 ++ partsTail eng parts = 't' :: (l ++ ['\'']) := by
  obtain ⟨w, hw, heq⟩ := @timeSource_eq eng part.1 part.2
  obtain ⟨w', rfl⟩ : ∃ w', w = 't' :: w' := by
    obtain rfl | rfl := hw
    · exact ⟨_, rfl⟩
    · exact ⟨_, rfl⟩
  by_cases hparts : parts = []
  · subst hparts
    exact ⟨w' ++ eng.toRfc3339 part.2, by simp [heq, partsTail]⟩
  · obtain ⟨l, hl⟩ := @partsTail_last eng parts hparts
    exact ⟨w' ++ (eng.toRfc3339 part.2 ++ '\'' :: l), by simp [heq, hl]⟩

theorem reproduces_window_alone (hread : ∀ t ∈ after.toList ++ before.toList, Readable eng t)
    {w : FilterExpr eng} (hw : FilterExpr.withTimeWindow none after before = some w) :
    Reproduces w := by
  have hparts := partsReadable_windowParts hread
  obtain ⟨part, parts, hcons⟩ : ∃ part parts, windowParts after before = part :: parts := by
    apply exists_cons_of_ne_nil
    intro hnil
    rw [windowParts, append_eq_nil_iff] at hnil
    have hafter : after = none := by simpa using hnil.1
    have hbefore : before = none := by simpa using hnil.2
    rw [hafter, hbefore] at hw
    cases hw
  have htext : windowSource eng after before =
      timeSource eng part.1 part.2 ++ partsTail eng parts := by
    have htail := @andTail_windowSource eng after before (by rw [hcons]; exact cons_ne_nil _ _)
    rw [hcons] at htail
    exact append_cancel_left htail
  have hw : w = { root := .window after before
                  needsDiagnosis := false
                  source := timeSource eng part.1 part.2 ++ partsTail eng parts } := by
    rw [FilterExpr.withTimeWindow, htext] at hw
    split at hw
    · cases hw
    · exact (Option.some.inj hw).symm
  have htrim : trim (timeSource eng part.1 part.2 ++ partsTail eng parts) =
      timeSource eng part.1 part.2 ++ partsTail eng parts := by
    obtain ⟨l, hl⟩ := @parts_ends eng part parts
    rw [hl]
    exact trim_cons_append (by decide) (by decide) l
  have hchars : ∀ c ∈ timeSource eng part.1 part.2 ++ partsTail eng parts,
      c ≠ '@' ∧ parenMark c = none := by
    intro c hc
    rw [hcons] at hparts
    exact partsTail_chars hparts c (mem_append_right _ hc)
  have hwindow := @all_windowParts eng
  rw [hw]
  refine ⟨{ root := joinWindow (.compare .time part.1 (.instant part.2)) parts
            needsDiagnosis :=
              (joinWindow (.compare .time part.1 (.instant part.2)) parts).referencesDiagnosis
            source := timeSource eng part.1 part.2 ++ partsTail eng parts },
    parse_eq_ok_iff.mpr ⟨?_, ?_, ?_, ?_, ?_, rfl, htrim.symm⟩, ?_⟩
  · obtain ⟨l, hl⟩ := @parts_ends eng part parts
    rw [htrim, hl]
    exact cons_ne_nil _ _
  · rw [htrim, firstReference_eq_none_iff]
    exact refFree_of_not_mem (fun hmem => (hchars _ hmem).1 rfl) _
  · rw [htrim, checkNestingDepth_iff, peak_of_none (fun c hc => (hchars c hc).2)]
    exact Nat.zero_le _
  · rw [htrim]
    rw [hcons] at hparts
    exact parseOrExpr_parts hparts
  · have hlength := length_windowParts_le after before
    have hone : (Expr.compare .time part.1 (.instant part.2) : Expr eng).countNodes = 1 := rfl
    rw [hcons, length_cons] at hlength
    rw [countNodes_joinWindow, hone, maxExpressionNodes]
    omega
  · intro Dialog readings dialog
    have hall := hwindow (readings.createdAt dialog) after before
    rw [hcons, all_cons] at hall
    rw [matchesDialog_eq readings rfl, matchesDialog_eq readings rfl, evalExpr_joinWindow]
    exact hall

end Sipnab.Dsl
