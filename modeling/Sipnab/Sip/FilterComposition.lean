import Sipnab.Sip.FilterExpr
import Sipnab.Sip.FilterNesting
import Sipnab.Sip.FilterUnclosed

/-!
# Filters put together

Two filters are put together by writing each in parentheses and `AND` between them. What comes out
is a filter that selects what both select, unless one of the texts does not end where it is cut: the
blanks around it are not all read as such, its last value takes the `)`, or a quote the scan for
references takes as open reaches into the other.
-/

namespace Sipnab.Dsl

open Text Nesting List

variable {eng : Engines}

/-! ## Accepted texts -/

/-- The blanks that are trimmed off the front, and off the end. -/
def leading (s : List Char) : List Char := s.takeWhile isWhitespace

def trailing (s : List Char) : List Char := ((trimStart s).reverse.takeWhile isWhitespace).reverse

theorem leading_append_trim (s : List Char) : leading s ++ (trim s ++ trailing s) = s := by
  have hend : trim s ++ trailing s = trimStart s := by
    rw [trim, trimEnd, trailing, ← reverse_append, takeWhile_append_dropWhile, reverse_reverse]
  rw [hend]
  exact takeWhile_append_dropWhile

theorem isWhitespace_of_mem_leading {s : List Char} : ∀ c ∈ leading s, isWhitespace c = true :=
  fun _ hc => mem_takeWhile_imp hc

theorem isWhitespace_of_mem_trailing {s : List Char} : ∀ c ∈ trailing s, isWhitespace c = true :=
  fun _ hc => mem_takeWhile_imp (mem_reverse.mp hc)

theorem eq_nil_of_suffix_trim {s rest : List Char} (hsuffix : rest <:+ trim s)
    (hblank : trim rest = []) : rest = [] := by
  by_contra hne
  have htrim : trim s ≠ [] := hsuffix.ne_nil hne
  have hlast : isWhitespace (rest.getLast hne) = true :=
    trim_eq_nil_iff.mp hblank _ (getLast_mem hne)
  rw [hsuffix.getLast hne, isWhitespace_getLast_trim htrim] at hlast
  cases hlast

structure Accepted (s : List Char) (f : FilterExpr eng) : Prop where
  nonempty : trim s ≠ []
  references : firstReference (trim s) = none
  nesting : checkNestingDepth (trim s) = true
  parsed : (parseOrExpr (trim s) : Parsed eng).outcome = .ok (f.root, [])
  nodes : f.root.countNodes ≤ maxExpressionNodes
  diagnosis : f.needsDiagnosis = f.root.referencesDiagnosis
  source : f.source = trim s

theorem parse_eq_ok_iff {s : List Char} {f : FilterExpr eng} :
    FilterExpr.parse s = .ok f ↔ Accepted s f := by
  constructor
  · intro h
    unfold FilterExpr.parse at h
    dsimp only at h
    split at h
    case isTrue => cases h
    case isFalse hempty =>
    split at h
    case h_1 => cases h
    case h_2 href =>
      split at h
      case isTrue => cases h
      case isFalse hnest =>
      split at h
      case h_1 => cases h
      case h_2 => cases h
      case h_3 expr remaining hparsed =>
        split_ifs at h with htrail hnodes
        cases h
        have hremaining : remaining = [] := by
          apply eq_nil_of_suffix_trim (parse_suffix hparsed)
          simpa using htrail
        subst hremaining
        exact ⟨by simpa using hempty, href, by simpa using hnest, hparsed, by simpa using hnodes,
          rfl, rfl⟩
  · intro h
    unfold FilterExpr.parse
    dsimp only
    rw [if_neg (by simpa using h.nonempty), h.references]
    dsimp only
    rw [if_neg (by simp [h.nesting]), h.parsed]
    dsimp only
    rw [if_neg (by simp [trim, trimStart, trimEnd]), if_neg (by simpa using h.nodes),
      ← h.diagnosis, ← h.source]

/-! ## A text in parentheses -/

/-- The blanks around a text are all read, and nothing it ends with takes a `)` behind it. -/
def pastable (eng : Engines) (s : List Char) : Bool :=
  (leading s).all isMultispace && (trailing s).all isMultispace &&
    (!(trailing s).isEmpty || !endsUnclosed (parseOrExpr (trim s) : Parsed eng).log)

variable {w : List Char} {n : ℕ} {c : Char}

theorem multispace0_of_all (hw : w.all isMultispace = true) (s : List Char) :
    multispace0 (w ++ s) = multispace0 s :=
  dropWhile_append_of_pos (List.all_eq_true.mp hw)

theorem parse_orExpr_blanks (hw : w.all isMultispace = true) (n : ℕ) (s : List Char) :
    (parse n .orExpr (w ++ s) : Parsed eng).outcome = (parse n .orExpr s : Parsed eng).outcome := by
  cases n with
  | zero => rfl
  | succ n =>
    have hand : (parse n .andExpr (w ++ s) : Parsed eng).outcome =
        (parse n .andExpr s : Parsed eng).outcome := by
      cases n with
      | zero => rfl
      | succ n => rw [parse, parse, multispace0_of_all hw]; rfl
    rw [parse, parse]
    cases h : (parse n .andExpr s : Parsed eng).outcome with
    | error halt =>
      rw [Logged.andThen_of_error (hand.trans h), Logged.andThen_of_error h]
    | ok a =>
      rw [Logged.andThen_of_ok (hand.trans h), Logged.andThen_of_ok h]
      rfl

theorem exists_multispace0_eq (hblank : ∀ c ∈ w, isWhitespace c = true)
    (hw : w.all isMultispace = false) (s : List Char) :
    ∃ c t, multispace0 (w ++ s) = c :: t ∧ isWhitespace c = true ∧ isMultispace c = false := by
  have hne : multispace0 w ≠ [] := by
    intro hnil
    rw [multispace0, dropWhile_eq_nil_iff] at hnil
    rw [List.all_eq_true.mpr hnil] at hw
    cases hw
  have hnot := head_dropWhile_not isMultispace hne
  rw [multispace0_append hne]
  cases hcons : multispace0 w with
  | nil => exact absurd hcons hne
  | cons c t =>
    refine ⟨c, t ++ s, rfl, ?_, ?_⟩
    · exact hblank c ((multispace0_suffix w).subset (by rw [hcons]; exact mem_cons_self ..))
    · have hhead : (multispace0 w).head hne = c := by simp only [hcons, head_cons]
      rw [← hhead]
      exact hnot

theorem multispace0_cons (h : isMultispace c = false) (s : List Char) :
    multispace0 (c :: s) = c :: s := dropWhile_cons_of_neg (by simp [h])

theorem comparison_blank_ne_ok (hblank : isWhitespace c = true) (hc : isMultispace c = false)
    (s : List Char) (a : Expr eng × List Char) :
    (comparison (c :: s) : Parsed eng).outcome ≠ .ok a := by
  have hstop : isStop c = true := by rw [isStop, hblank, Bool.true_or]
  intro hok
  obtain ⟨field, op, valueAt, text, value, hhead, -⟩ := @comparison_eq_ok eng (c :: s) a.2 a.1 hok
  obtain ⟨afterField, afterOp, hfield, -⟩ := comparisonHead_eq_ok hhead
  have hheader : headerFieldPrefix.isPrefixOf (c :: s) = false :=
    isPrefixOf_append_stop (all_iff_forall_prop.mp (by decide)) hstop [] s
  have hfirst : (identifier (c :: s)).1 = [] := by
    have hident := not_isIdentChar_of_isStop hstop
    unfold identifier
    dsimp only
    rw [takeWhile_cons_of_neg (by simp [hident]), dropWhile_cons_of_neg (by simp [hident])]
    split
    case h_1 rest heq =>
      rw [(List.cons.inj heq).1] at hblank
      cases hblank
    case h_2 => rfl
  rw [multispace0_cons hc, parseField, hheader, if_neg Bool.false_ne_true] at hfield
  dsimp only at hfield
  rw [hfirst] at hfield
  cases hfield

theorem parse_orExpr_blank_ne_ok (hblank : ∀ c ∈ w, isWhitespace c = true)
    (hw : w.all isMultispace = false) (n : ℕ) (s : List Char) (a : Expr eng × List Char) :
    (parse n .orExpr (w ++ s) : Parsed eng).outcome ≠ .ok a := by
  obtain ⟨c, t, hspace, hc, hm⟩ := exists_multispace0_eq hblank hw s
  have hatom : ∀ m b, (parse m .atom (c :: t) : Parsed eng).outcome ≠ .ok b := by
    intro m b
    cases m with
    | zero => exact not_ok_fail
    | succ m =>
      rw [parse, multispace0_cons hm]
      split
      case h_1 inner heq =>
        rw [(List.cons.inj heq).1] at hc
        cases hc
      case h_2 => exact comparison_blank_ne_ok hc hm t b
  have hnot : ∀ m b, (parse m .notExpr (c :: t) : Parsed eng).outcome ≠ .ok b := by
    intro m b
    cases m with
    | zero => exact not_ok_fail
    | succ m =>
      have hword : keyword "NOT".toList (c :: t) = none := by
        apply keyword_cons_none rfl
        rw [isStop_lower (by rw [isStop, hc, Bool.true_or])]
        rintro rfl
        cases hc
      rw [parse, multispace0_cons hm, hword]
      exact hatom m b
  intro hok
  cases n with
  | zero => exact not_ok_fail hok
  | succ n =>
    obtain ⟨b, hb, -⟩ := Logged.exists_of_andThen hok
    cases n with
    | zero => exact not_ok_fail hb
    | succ n =>
      rw [parse, hspace] at hb
      obtain ⟨b', hb', -⟩ := Logged.exists_of_andThen hb
      exact hnot n b' hb'

theorem parse_atom_paren (n : ℕ) (inner : List Char) :
    (parse (n + 1) .atom ('(' :: inner) : Parsed eng) =
      ((parse n .orExpr inner).andThen closeParen).after
        [.text (consumed ('(' :: inner) ('(' :: inner)), .openGroup] := rfl

variable {s : List Char} {f : FilterExpr eng}

theorem Accepted.parse_append (h : Accepted s f) (hn : fuelFor (trim s) ≤ n)
    (hlead : (leading s).all isMultispace = true)
    (hclosed : trailing s ≠ [] ∨ endsUnclosed (parseOrExpr (trim s) : Parsed eng).log = false)
    (y : List Char) :
    (parse n .orExpr (s ++ ')' :: y) : Parsed eng).outcome =
      .ok (f.root, trailing s ++ ')' :: y) := by
  have hparse : parse n .orExpr (trim s) = (parseOrExpr (trim s) : Parsed eng) :=
    parse_of_le (parseOrExpr_ended _) hn
  have hfollows := follows_append_paren (isWhitespace_of_mem_trailing (s := s)) y
  have hsealed : Sealed (parse n .orExpr (trim s) : Parsed eng).log [] (trailing s ++ ')' :: y) := by
    rw [hparse]
    obtain hne | hclosed := hclosed
    · refine Or.inr (Or.inl ?_)
      cases htrail : trailing s with
      | nil => exact absurd htrail hne
      | cons c w =>
        have hc := isWhitespace_of_mem_trailing (s := s) c (by rw [htrail]; simp)
        rw [cons_append, List.head?_cons, Ne, Option.some.injEq]
        rintro rfl
        exact absurd hc (by decide)
    · exact Or.inr (Or.inr hclosed)
  have hsplit : s ++ ')' :: y = leading s ++ (trim s ++ (trailing s ++ ')' :: y)) := by
    conv_lhs => rw [← leading_append_trim s]
    simp
  rw [hsplit, parse_orExpr_blanks hlead,
    Dsl.parse_append hfollows (hparse ▸ h.parsed) (Or.inl rfl) hsealed]
  rfl

theorem Accepted.parse_group (h : Accepted s f) (hpaste : pastable eng s = true)
    (hn : fuelFor (trim s) ≤ n) (y : List Char) :
    (parse (n + 1) .atom ('(' :: (s ++ ')' :: y)) : Parsed eng).outcome = .ok (f.root, y) := by
  rw [pastable, Bool.and_eq_true, Bool.and_eq_true, Bool.or_eq_true] at hpaste
  obtain ⟨⟨hlead, htrail⟩, hclosed⟩ := hpaste
  have hinner := h.parse_append hn hlead (hclosed.imp (by simp) (by simp)) y
  have hclose : closeParen (f.root, trailing s ++ ')' :: y) =
      .done [.text (consumed (trailing s ++ ')' :: y) (')' :: y)), .closeGroup f.root]
        (f.root, y) := by
    rw [closeParen, multispace0_of_all htrail]
    rfl
  rw [parse_atom_paren, Logged.andThen_of_ok hinner, hclose]
  rfl

variable {a : Expr eng × List Char} {d : Char} {result : Expr eng}

theorem Accepted.pastable_of_group (h : Accepted s f) {y : List Char} (hy : Detached y)
    (hloop : ∀ m result e rest, (parse m (.andLoop result) y : Parsed eng).outcome = .ok (e, rest) →
      rest = []) (ha : (parse n .atom ('(' :: (s ++ ')' :: y)) : Parsed eng).outcome = .ok a) :
    pastable eng s = true ∧ a = (f.root, y) := by
  cases n with
  | zero => exact absurd ha not_ok_fail
  | succ n =>
    rw [parse_atom_paren] at ha
    obtain ⟨b, hb, hclose, -⟩ := Logged.exists_of_andThen ha
    -- enough fuel for the text on its own
    have hfuel := parse_of_le (Ended.of_ok hb) (le_max_left n (fuelFor (trim s)))
    rw [← hfuel] at hb
    have hsplit : s ++ ')' :: y = leading s ++ (trim s ++ (trailing s ++ ')' :: y)) := by
      conv_lhs => rw [← leading_append_trim s]
      simp
    have hlead : (leading s).all isMultispace = true := by
      by_contra hlead
      rw [hsplit] at hb
      exact parse_orExpr_blank_ne_ok isWhitespace_of_mem_leading (by simpa using hlead) _ _ b hb
    have hclosed : trailing s ≠ [] ∨
        endsUnclosed (parseOrExpr (trim s) : Parsed eng).log = false := by
      by_contra hopen
      rw [not_or, not_not, Bool.not_eq_false] at hopen
      have hparse : parse (max n (fuelFor (trim s))) .orExpr (trim s) =
          (parseOrExpr (trim s) : Parsed eng) :=
        parse_of_le (parseOrExpr_ended _) (le_max_right _ _)
      rw [hsplit, parse_orExpr_blanks hlead, hopen.1, nil_append] at hb
      have hrest : b.2 = [] := parse_unclosed hy hloop (hparse ▸ h.parsed)
        (by rw [hparse]; exact hopen.2) hb
      rw [closeParen, hrest] at hclose
      cases hclose
    have hinner := h.parse_append (le_max_right n _) hlead hclosed y
    rw [hb] at hinner
    cases hinner
    have htrail : (trailing s).all isMultispace = true := by
      by_contra htrail
      obtain ⟨c, t, hspace, hc, -⟩ := exists_multispace0_eq isWhitespace_of_mem_trailing
        (by simpa using htrail) (')' :: y)
      rw [closeParen, hspace] at hclose
      split at hclose
      case h_1 rest heq =>
        rw [(List.cons.inj heq).1] at hc
        cases hc
      case h_2 => cases hclose
    rw [closeParen, multispace0_of_all htrail] at hclose
    refine ⟨?_, ?_⟩
    · rw [pastable, hlead, htrail, Bool.true_and, Bool.true_and, Bool.or_eq_true]
      exact hclosed.imp (by simp) (by simp)
    · cases hclose
      rfl

/-! ## Two texts joined by `AND` -/

def andTail (z : List Char) : List Char := " AND ".toList ++ z

def groupText (s y : List Char) : List Char := '(' :: (s ++ ')' :: y)

def andText (s t : List Char) : List Char :=
  "(".toList ++ s ++ ") AND (".toList ++ t ++ ")".toList

theorem andText_eq (s t : List Char) : andText s t = groupText s (andTail (groupText t [])) := by
  simp [andText, groupText, andTail]

theorem detached_andTail (z : List Char) : Detached (andTail z) :=
  Or.inr ⟨' ', "AND ".toList ++ z, rfl, by decide⟩

theorem parse_andLoop_tail (hc : isMultispace c = false) (n : ℕ) (result : Expr eng)
    (z : List Char) :
    (parse (n + 1) (.andLoop result) (andTail (c :: z)) : Parsed eng).outcome =
      ((parse n .notExpr (c :: z)).andThen
        (fun p => parse n (.andLoop (.and result p.1)) p.2)).outcome := by
  have hstart : trimStart (andTail (c :: z)) = "AND ".toList ++ c :: z := rfl
  have hword : keyword "AND".toList ("AND ".toList ++ c :: z) = some (c :: z) := by
    have hkeyword : keyword "AND".toList ("AND ".toList ++ c :: z) = some (multispace0 (c :: z)) :=
      rfl
    rw [hkeyword, multispace0_cons hc]
  rw [parse, hstart, hword]
  rfl

theorem parse_notExpr_paren (n : ℕ) (z : List Char) :
    (parse (n + 1) .notExpr ('(' :: z) : Parsed eng).outcome =
      (parse n .atom ('(' :: z) : Parsed eng).outcome := by
  have hword : keyword "NOT".toList ('(' :: z) = none := keyword_cons_none rfl (by decide) z
  rw [parse, multispace0_cons rfl, hword]
  rfl

/-- An expression from its first character that is no blank: the first operand and the two loops. -/
theorem parse_orExpr_iff (hd : isMultispace d = false) {z : List Char} {c : Expr eng × List Char} :
    (parse (n + 2) .orExpr (d :: z) : Parsed eng).outcome = .ok c ↔
      ∃ a b, (parse n .notExpr (d :: z) : Parsed eng).outcome = .ok a ∧
        (parse n (.andLoop a.1) a.2).outcome = .ok b ∧
        (parse (n + 1) (.orLoop b.1) b.2).outcome = .ok c := by
  have hand : (parse (n + 1) .andExpr (d :: z) : Parsed eng).outcome =
      ((parse n .notExpr (d :: z)).andThen (fun p => parse n (.andLoop p.1) p.2)).outcome := by
    rw [parse, multispace0_cons hd]
    rfl
  constructor
  · intro h
    obtain ⟨b, hb, hend, -⟩ := Logged.exists_of_andThen h
    rw [hand] at hb
    obtain ⟨a, ha, hloop, -⟩ := Logged.exists_of_andThen hb
    exact ⟨a, b, ha, hloop, hend⟩
  · rintro ⟨a, b, ha, hloop, hend⟩
    rw [Logged.andThen_of_ok ha, Logged.outcome_after, hloop] at hand
    rw [parse, Logged.andThen_of_ok hand]
    exact hend

theorem loop_nil_iff {word : Rule eng} (hword : word = .orLoop result ∨ word = .andLoop result) :
    (parse (n + 1) word []).outcome = .ok a ↔ a = (result, []) := by
  have hend : (parse (n + 1) word []).outcome = .ok (result, []) := by
    obtain rfl | rfl := hword <;> rfl
  rw [hend, Except.ok.injEq, eq_comm]

theorem Accepted.andLoop_of_group (h : Accepted s f)
    (ha : (parse n (.andLoop result) (andTail (groupText s []))).outcome = .ok a) :
    pastable eng s = true ∧ a = (.and result f.root, []) := by
  have hloop : ∀ m result e rest, (parse m (.andLoop result) [] : Parsed eng).outcome =
      .ok (e, rest) → rest = [] := fun m result e rest => loop_nil (Or.inr rfl)
  cases n with
  | zero => exact absurd ha not_ok_fail
  | succ n =>
    rw [groupText, parse_andLoop_tail rfl] at ha
    obtain ⟨b, hb, hend, -⟩ := Logged.exists_of_andThen ha
    cases n with
    | zero => exact absurd hb not_ok_fail
    | succ n =>
      rw [parse_notExpr_paren] at hb
      obtain ⟨hpaste, rfl⟩ := h.pastable_of_group (Or.inl rfl) hloop hb
      exact ⟨hpaste, (loop_nil_iff (Or.inr rfl)).mp hend⟩

theorem Accepted.andLoop_group (h : Accepted s f) (hpaste : pastable eng s = true)
    (hn : fuelFor (trim s) ≤ n) (result : Expr eng) :
    (parse (n + 3) (.andLoop result) (andTail (groupText s []))).outcome =
      .ok (.and result f.root, []) := by
  have hnot : (parse (n + 2) .notExpr ('(' :: (s ++ ')' :: [])) : Parsed eng).outcome =
      .ok (f.root, []) := by
    rw [parse_notExpr_paren]
    exact h.parse_group hpaste hn []
  rw [groupText, parse_andLoop_tail rfl, Logged.andThen_of_ok hnot]
  exact (loop_nil_iff (n := n + 1) (Or.inr rfl)).mpr rfl

variable {t : List Char} {g : FilterExpr eng}

theorem parseOrExpr_andText (hs : Accepted s f) (ht : Accepted t g)
    (c : Expr eng × List Char) :
    (parseOrExpr (andText s t) : Parsed eng).outcome = .ok c ↔
      pastable eng s = true ∧ pastable eng t = true ∧ c = (.and f.root g.root, []) := by
  have hlength : (trim s).length + (trim t).length + 9 ≤ (andText s t).length := by
    have hle : ∀ l, (trim l).length ≤ l.length := by
      intro l
      have hsplit := congrArg List.length (leading_append_trim l)
      rw [length_append, length_append] at hsplit
      omega
    have hs := hle s
    have ht := hle t
    rw [andText_eq]
    simp only [groupText, andTail, length_cons, length_append]
    have hand : " AND ".toList.length = 5 := rfl
    rw [hand, length_nil]
    omega
  obtain ⟨n, hn⟩ : ∃ n, fuelFor (andText s t) = n + 6 + 2 :=
    ⟨fuelFor (andText s t) - 8, by simp only [fuelFor]; omega⟩
  have hns : fuelFor (trim s) ≤ n + 4 := by simp only [fuelFor] at hn ⊢; omega
  have hnt : fuelFor (trim t) ≤ n + 3 := by simp only [fuelFor] at hn ⊢; omega
  rw [parseOrExpr, hn, andText_eq, groupText, parse_orExpr_iff rfl]
  constructor
  · rintro ⟨a, b, ha, hloop, hend⟩
    rw [parse_notExpr_paren] at ha
    obtain ⟨hpaste, rfl⟩ := hs.pastable_of_group (detached_andTail _)
      (fun m result e rest hrest => congrArg Prod.snd (ht.andLoop_of_group hrest).2) ha
    obtain ⟨hpaste', rfl⟩ := ht.andLoop_of_group hloop
    exact ⟨hpaste, hpaste', (loop_nil_iff (Or.inl rfl)).mp hend⟩
  · rintro ⟨hpaste, hpaste', rfl⟩
    have hfirst := hs.parse_group hpaste hns (andTail (groupText t []))
    rw [← parse_notExpr_paren] at hfirst
    exact ⟨_, _, hfirst, ht.andLoop_group hpaste' hnt f.root,
      (loop_nil_iff (n := n + 6) (Or.inl rfl)).mpr rfl⟩

theorem trim_cons_append (hc : isWhitespace c = false) (hd : isWhitespace d = false)
    (l : List Char) : trim (c :: (l ++ [d])) = c :: (l ++ [d]) := by
  have hstart : trimStart (c :: (l ++ [d])) = c :: (l ++ [d]) :=
    dropWhile_cons_of_neg (by simp [hc])
  rw [trim, hstart, trimEnd, ← cons_append, reverse_append, reverse_singleton,
    singleton_append, dropWhile_cons_of_neg (by simp [hd]), reverse_cons,
    reverse_reverse]

theorem trim_andText (s t : List Char) : trim (andText s t) = andText s t := by
  have hcons : andText s t = '(' :: ((s ++ ')' :: andTail ('(' :: t)) ++ [')']) := by
    simp [andText_eq, groupText, andTail]
  rw [hcons]
  exact trim_cons_append (by decide) (by decide) _

/-! ## Nesting and nodes -/

theorem peak_groupText (d : ℕ) (s y : List Char) :
    peak parenMark d (groupText s y) ≤
      max (d + peak parenMark 0 s + 1) (peak parenMark (d + peak parenMark 0 s) y) := by
  have hinner : peak parenMark (d + 1) s ≤ d + peak parenMark 0 s + 1 := by
    have hadd : peak parenMark (0 + (d + 1)) s ≤ peak parenMark 0 s + (d + 1) := peak_add_le 0 _ s
    rw [Nat.zero_add] at hadd
    omega
  have hdepth := (depthAfter_le_peak parenMark (d + 1) s).trans hinner
  have hopen : peak parenMark d (groupText s y) =
      max d (peak parenMark (d + 1) (s ++ ')' :: y)) := rfl
  have hclose : peak parenMark (depthAfter parenMark (d + 1) s) (')' :: y) =
      max (depthAfter parenMark (d + 1) s)
        (peak parenMark (depthAfter parenMark (d + 1) s - 1) y) := rfl
  have hrest : peak parenMark (depthAfter parenMark (d + 1) s - 1) y ≤
      peak parenMark (d + peak parenMark 0 s) y := peak_mono (by omega) y
  rw [hopen, peak_append, hclose]
  omega

theorem peak_andTail (d : ℕ) (z : List Char) :
    peak parenMark d (andTail z) = peak parenMark d z := by
  have hnone : ∀ c ∈ " AND ".toList, parenMark c = none := all_iff_forall_prop.mp (by decide)
  rw [andTail, peak_append, peak_of_none hnone, depthAfter_of_none hnone]
  exact max_eq_right (le_peak parenMark d z)

theorem checkNestingDepth_andText {s t : List Char}
    (h : peak parenMark 0 s + peak parenMark 0 t < maxNestingDepth) :
    checkNestingDepth (andText s t) = true := by
  have hfirst := peak_groupText 0 s (andTail (groupText t []))
  have hsecond := peak_groupText (0 + peak parenMark 0 s) t []
  have hnil : peak parenMark (0 + peak parenMark 0 s + peak parenMark 0 t) [] =
      0 + peak parenMark 0 s + peak parenMark 0 t := rfl
  rw [peak_andTail] at hfirst
  rw [hnil] at hsecond
  rw [checkNestingDepth_iff, andText_eq]
  exact hfirst.trans (by omega)

/-! ## Evaluation -/

variable {Dialog : Type} (readings : Readings eng Dialog)

theorem evalExpr_diagnosis {e : Expr eng} (h : e.referencesDiagnosis = false)
    (diag diag' : MediaDiagnosis) (dialog : Dialog) :
    evalExpr readings diag dialog e = evalExpr readings diag' dialog e := by
  induction e with
  | and lhs rhs ihl ihr =>
    simp only [Expr.referencesDiagnosis, Bool.or_eq_false_iff] at h
    simp only [evalExpr, ihl h.1, ihr h.2]
  | or lhs rhs ihl ihr =>
    simp only [Expr.referencesDiagnosis, Bool.or_eq_false_iff] at h
    simp only [evalExpr, ihl h.1, ihr h.2]
  | not inner ih => simp only [evalExpr, ih h]
  | compare field op value => cases field <;> first | rfl | cases h
  | window after before => rfl

theorem matchesDialog_eq {f : FilterExpr eng} (h : f.needsDiagnosis = f.root.referencesDiagnosis)
    (dialog : Dialog) : f.matchesDialog readings dialog =
      evalExpr readings (readings.diagnose dialog) dialog f.root := by
  rw [FilterExpr.matchesDialog]
  cases hneeds : f.needsDiagnosis with
  | true => rfl
  | false => exact evalExpr_diagnosis readings (h ▸ hneeds) _ _ dialog

/-- The text is accepted, and selects the dialogs both filters select. -/
def JoinsAs (w : List Char) (f g : FilterExpr eng) : Prop :=
  ∃ joined, FilterExpr.parse w = .ok joined ∧
    ∀ (Dialog : Type) (readings : Readings eng Dialog) (dialog : Dialog),
      joined.matchesDialog readings dialog =
        (f.matchesDialog readings dialog && g.matchesDialog readings dialog)

theorem joinsAs_andText_iff {s t : List Char} {f g : FilterExpr eng}
    (hs : FilterExpr.parse s = .ok f) (ht : FilterExpr.parse t = .ok g)
    (hdepth : peak parenMark 0 s + peak parenMark 0 t < maxNestingDepth)
    (hnodes : f.root.countNodes + g.root.countNodes < maxExpressionNodes) :
    JoinsAs (andText s t) f g ↔ pastable eng s = true ∧ pastable eng t = true ∧
      firstReference (andText s t) = none := by
  have hs := parse_eq_ok_iff.mp hs
  have ht := parse_eq_ok_iff.mp ht
  constructor
  · rintro ⟨joined, hjoined, -⟩
    have haccepted := parse_eq_ok_iff.mp hjoined
    have hparsed := haccepted.parsed
    have hreferences := haccepted.references
    rw [trim_andText] at hparsed hreferences
    obtain ⟨hpaste, hpaste', -⟩ := (parseOrExpr_andText hs ht _).mp hparsed
    exact ⟨hpaste, hpaste', hreferences⟩
  · rintro ⟨hpaste, hpaste', hreferences⟩
    let joined : FilterExpr eng :=
      { root := .and f.root g.root
        needsDiagnosis := (Expr.and f.root g.root).referencesDiagnosis
        source := andText s t }
    have haccepted : Accepted (andText s t) joined := by
      refine ⟨?_, ?_, ?_, ?_, ?_, rfl, ?_⟩
      · rw [trim_andText, andText_eq]
        exact cons_ne_nil _ _
      · rw [trim_andText]
        exact hreferences
      · rw [trim_andText]
        exact checkNestingDepth_andText hdepth
      · rw [trim_andText]
        exact (parseOrExpr_andText hs ht _).mpr ⟨hpaste, hpaste', rfl⟩
      · have hcount : joined.root.countNodes = f.root.countNodes + g.root.countNodes + 1 := rfl
        omega
      · exact (trim_andText s t).symm
    refine ⟨joined, parse_eq_ok_iff.mpr haccepted, ?_⟩
    intro Dialog readings dialog
    rw [matchesDialog_eq readings haccepted.diagnosis, matchesDialog_eq readings hs.diagnosis,
      matchesDialog_eq readings ht.diagnosis]
    rfl

end Sipnab.Dsl
