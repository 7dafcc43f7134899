import Sipnab.Lib.Nesting
import Sipnab.Sip.FilterGrammar

/-!
# The bound on the nesting of a filter

Before a filter is parsed its parentheses are counted, whether they group expressions or stand in a
value. The parser opens a group for the first kind only.
-/

namespace Sipnab.Dsl

open Text Nesting List

variable {eng : Engines}

def parenMark (c : Char) : Option Bracket :=
  if c = '(' then some .opening else if c = ')' then some .closing else none

def groupMark : Event eng → Option Bracket
  | .openGroup => some .opening
  | .closeGroup _ => some .closing
  | _ => none

def openGroups (eng : Engines) (s : List Char) : ℕ :=
  peak groupMark 0 (parseOrExpr s : Parsed eng).log

def unread (eng : Engines) (s : List Char) : List Char :=
  s.drop (logText (parseOrExpr s : Parsed eng).log).length

def Event.outside : Event eng → List Char
  | .text cs => cs
  | .openGroup => ['(']
  | .closeGroup _ => [')']
  | .value _ _ => []

def groupNesting (eng : Engines) (s : List Char) : ℕ :=
  peak parenMark 0 ((parseOrExpr s : Parsed eng).log.flatMap Event.outside ++ unread eng s)

/-- The parentheses of each value are closed in it, in their order. -/
def valuesClose (log : List (Event eng)) : Bool :=
  log.all (fun ev => match ev with
    | .value _ cs => closes parenMark 0 cs
    | _ => true)

/-- With `d` groups open before the log, the parentheses of each value stay within the bound on top
of the groups around it. -/
def valuesWithin (bound : ℕ) : ℕ → List (Event eng) → Bool
  | _, [] => true
  | d, .text _ :: log => valuesWithin bound d log
  | d, .openGroup :: log => valuesWithin bound (d + 1) log
  | d, .closeGroup _ :: log => valuesWithin bound (d - 1) log
  | d, .value _ cs :: log => d + peak parenMark 0 cs ≤ bound && valuesWithin bound d log

def NestingGuarded (eng : Engines) (s : List Char) : Prop :=
  (checkNestingDepth s = true → openGroups eng s ≤ maxNestingDepth) ∧
    (groupNesting eng s ≤ maxNestingDepth → checkNestingDepth s = true)

/-! ## The check -/

variable {word rest : List Char} (s : List Char)

theorem nestingFrom_isSome {d : ℕ} (hd : d ≤ maxNestingDepth) :
    (nestingFrom d s).isSome = true ↔ peak parenMark d s ≤ maxNestingDepth := by
  induction s generalizing d with
  | nil => simpa [nestingFrom, peak] using hd
  | cons c s ih =>
    rw [nestingFrom, peak, step, parenMark]
    by_cases hopen : c = '('
    · rw [if_pos hopen, if_pos hopen]
      by_cases hdeep : maxNestingDepth < d + 1
      · rw [if_pos hdeep]
        have hle := le_peak parenMark (d + 1) s
        simp only [Option.isSome_none, Bool.false_eq_true, max_le_iff, false_iff, not_and]
        omega
      · rw [if_neg hdeep, ih (by omega)]
        simp only [max_le_iff, hd, true_and]
    · rw [if_neg hopen, if_neg hopen]
      by_cases hclose : c = ')'
      · rw [if_pos hclose, if_pos hclose, ih (by omega)]
        simp only [max_le_iff, hd, true_and]
      · rw [if_neg hclose, if_neg hclose, ih hd]
        simp only [max_le_iff, hd, true_and]

theorem checkNestingDepth_iff : checkNestingDepth s = true ↔ peak parenMark 0 s ≤ maxNestingDepth :=
  nestingFrom_isSome s (Nat.zero_le _)

/-! ## Text between values -/

/-- No parenthesis stands between a text and what is left of it. -/
def PlainTo (s rest : List Char) : Prop := ∃ t, t ++ rest = s ∧ ∀ c ∈ t, parenMark c = none

theorem PlainTo.trans {a b c : List Char} (hab : PlainTo a b) (hbc : PlainTo b c) :
    PlainTo a c := by
  obtain ⟨t, rfl, ht⟩ := hab
  obtain ⟨u, rfl, hu⟩ := hbc
  refine ⟨t ++ u, append_assoc t u c, ?_⟩
  intro x hx
  obtain hx | hx := mem_append.mp hx
  · exact ht x hx
  · exact hu x hx

theorem PlainTo.consumed {s rest : List Char} (h : PlainTo s rest) :
    ∀ c ∈ consumed s rest, parenMark c = none := by
  obtain ⟨t, rfl, ht⟩ := h
  rw [Dsl.consumed, length_append, Nat.add_sub_cancel, take_left]
  exact ht

theorem plainTo_cons {c : Char} (h : parenMark c = none) (s : List Char) : PlainTo (c :: s) s :=
  ⟨[c], rfl, by simpa using h⟩

variable {p : Char → Bool} {name : List Char} {field : Field} {op : Operator}
  {log : List (Event eng)}

theorem plainTo_dropWhile (h : ∀ c, p c = true → parenMark c = none) (s : List Char) :
    PlainTo s (s.dropWhile p) :=
  ⟨s.takeWhile p, takeWhile_append_dropWhile, fun c hc => h c (mem_takeWhile_imp hc)⟩

theorem parenMark_of (hopen : p '(' = false) (hclose : p ')' = false) (c : Char) (h : p c = true) :
    parenMark c = none := by
  rw [parenMark, if_neg, if_neg]
  · rintro rfl
    rw [hclose] at h
    cases h
  · rintro rfl
    rw [hopen] at h
    cases h

theorem plainTo_multispace0 : PlainTo s (multispace0 s) :=
  plainTo_dropWhile (parenMark_of rfl rfl) s

theorem plainTo_trimStart : PlainTo s (trimStart s) :=
  plainTo_dropWhile (parenMark_of (by decide) (by decide)) s

theorem plainTo_drop {s : List Char} (h : eqIgnoreAsciiCase (s.take word.length) word = true)
    (hword : ∀ c ∈ word, parenMark c = none ∧ toAsciiLowercase '(' ≠ toAsciiLowercase c ∧
      toAsciiLowercase ')' ≠ toAsciiLowercase c) : PlainTo s (s.drop word.length) := by
  refine ⟨s.take word.length, take_append_drop _ s, ?_⟩
  intro c hc
  rw [eqIgnoreAsciiCase, beq_iff_eq] at h
  have hmem : toAsciiLowercase c ∈ word.map toAsciiLowercase := h ▸ List.mem_map_of_mem hc
  obtain ⟨d, hd, hlower⟩ := List.mem_map.mp hmem
  rw [parenMark, if_neg, if_neg]
  · rintro rfl
    exact (hword d hd).2.2 hlower.symm
  · rintro rfl
    exact (hword d hd).2.1 hlower.symm

theorem plainTo_keyword {s : List Char} (h : keyword word s = some rest)
    (hword : ∀ c ∈ word, parenMark c = none ∧ toAsciiLowercase '(' ≠ toAsciiLowercase c ∧
      toAsciiLowercase ')' ≠ toAsciiLowercase c) : PlainTo s rest := by
  obtain ⟨hfold, c, t, hdrop, hc, rfl⟩ := keyword_eq_some h
  have hplain := plainTo_drop hfold hword
  rw [hdrop] at hplain
  exact hplain.trans ((plainTo_cons (parenMark_of rfl rfl c hc) t).trans (plainTo_multispace0 t))

theorem plainTo_of_isPrefixOf {s : List Char} (h : word.isPrefixOf s = true)
    (hword : ∀ c ∈ word, parenMark c = none) : PlainTo s (s.drop word.length) := by
  obtain ⟨t, rfl⟩ := isPrefixOf_iff_prefix.mp h
  exact ⟨word, by rw [drop_left], hword⟩

theorem plainTo_scanQuotedString {quote : Char} (hquote : isQuote quote = true) {s : List Char}
    (h : scanQuotedString quote s = some (name, rest)) (hname : ∀ c ∈ name, isTokenChar c = true) :
    PlainTo s rest := by
  induction s using scanQuotedString.induct quote generalizing name with
  | case1 => cases h
  | case2 => cases h
  | case3 c t ih =>
    rw [scanQuotedString] at h
    obtain ⟨⟨name', rest'⟩, hscan, heq⟩ := Option.map_eq_some_iff.mp h
    by_cases hc : isQuote c = true
    · simp only [if_pos hc, Prod.mk.injEq] at heq
      obtain ⟨rfl, rfl⟩ := heq
      have hrest := ih hscan (fun d hd => hname d (mem_cons_of_mem c hd))
      exact (plainTo_cons (by decide) _).trans
        ((plainTo_cons (parenMark_of rfl rfl c hc) t).trans hrest)
    · simp only [if_neg hc, Prod.mk.injEq] at heq
      obtain ⟨rfl, rfl⟩ := heq
      exact absurd (hname '\\' (mem_cons_self ..)) (by decide)
  | case4 t hne hnil =>
    rw [scanQuotedString, if_pos rfl] at h
    · cases h
      exact plainTo_cons (parenMark_of rfl rfl quote hquote) rest
    · exact hne
    · exact hnil
  | case5 c t hne hnil hc ih =>
    rw [scanQuotedString, if_neg hc] at h
    · obtain ⟨⟨name', rest'⟩, hscan, heq⟩ := Option.map_eq_some_iff.mp h
      cases heq
      have hrest := ih hscan (fun d hd => hname d (mem_cons_of_mem c hd))
      exact (plainTo_cons (parenMark_of (by decide) (by decide) c
        (hname c (mem_cons_self ..))) t).trans hrest
    · exact hne
    · exact hnil

theorem plainTo_headerName {s : List Char} (h : headerName s = some (name, rest))
    (hname : ∀ c ∈ name, isTokenChar c = true) : PlainTo s rest := by
  unfold headerName at h
  split at h
  case h_1 quote t =>
    split at h
    case isTrue hquote =>
      exact (plainTo_cons (parenMark_of rfl rfl quote hquote) t).trans
        (plainTo_scanQuotedString hquote h hname)
    case isFalse =>
      cases h
      exact plainTo_dropWhile (parenMark_of (by decide) (by decide)) _
  case h_2 =>
    cases h
    exact ⟨[], rfl, by simp⟩

theorem plainTo_identifier : PlainTo s (identifier s).2 := by
  have hfirst := plainTo_dropWhile (parenMark_of (p := isIdentChar) (by decide) (by decide)) s
  unfold identifier
  dsimp only
  split
  case h_1 rest hdrop =>
    rw [hdrop] at hfirst
    split
    · exact hfirst
    · exact hfirst.trans ((plainTo_cons (by decide) rest).trans
        (plainTo_dropWhile (parenMark_of (by decide) (by decide)) rest))
  case h_2 => exact hfirst

theorem plainTo_parseField {s : List Char} (h : parseField s = .ok (field, rest)) :
    PlainTo s rest := by
  unfold parseField at h
  split at h
  case isTrue hheader =>
    unfold parseHeaderField at h
    split at h
    case h_1 => cases h
    case h_2 name rest' hname =>
      split_ifs at h with hlong htoken
      cases h
      have hall : ∀ c ∈ name, isTokenChar c = true := by
        simp only [Bool.or_eq_true, Bool.not_eq_true', not_or] at htoken
        exact List.all_eq_true.mp (by simpa using htoken.2)
      exact (plainTo_of_isPrefixOf hheader (all_iff_forall_prop.mp (by decide))).trans
        (plainTo_headerName hname hall)
  case isFalse =>
    dsimp only at h
    split_ifs at h
    split at h
    case h_1 =>
      cases h
      exact plainTo_identifier s
    case h_2 => cases h

theorem operators_plain : ∀ p ∈ operators, ∀ c ∈ p.1, parenMark c = none := by
  have hall : ∀ p ∈ operators, p.1.all (fun c => parenMark c = none) = true := by decide
  intro p hp
  exact all_iff_forall_prop.mp (hall p hp)

theorem plainTo_parseOperator {s : List Char} (h : parseOperator s = .ok (op, rest)) :
    PlainTo s rest := by
  unfold parseOperator at h
  split at h
  case h_1 word op' hfind =>
    cases h
    exact plainTo_of_isPrefixOf (by simpa using List.find?_some hfind)
      (operators_plain _ (mem_of_find?_eq_some hfind))
  case h_2 => cases h

theorem plainTo_comparisonHead {s valueAt : List Char}
    (h : comparisonHead s = .ok (field, op, valueAt)) : PlainTo s valueAt := by
  obtain ⟨afterField, afterOp, hfield, hop, -, -, rfl⟩ := comparisonHead_eq_ok h
  exact (plainTo_multispace0 s).trans ((plainTo_parseField hfield).trans
    ((plainTo_multispace0 _).trans ((plainTo_parseOperator hop).trans (plainTo_multispace0 _))))

/-- The text the log holds outside values is without parentheses. -/
def PlainText (log : List (Event eng)) : Prop :=
  ∀ cs, Event.text cs ∈ log → ∀ c ∈ cs, parenMark c = none

theorem PlainText.append {a b : List (Event eng)} (ha : PlainText a) (hb : PlainText b) :
    PlainText (a ++ b) := by
  intro cs hcs
  obtain h | h := mem_append.mp hcs
  · exact ha cs h
  · exact hb cs h

theorem PlainText.cons_text {s : List Char} (h : PlainTo s rest) (hlog : PlainText log) :
    PlainText (.text (consumed s rest) :: log) := by
  intro cs hcs
  obtain heq | hcs := mem_cons.mp hcs
  · cases heq
    exact h.consumed
  · exact hlog cs hcs

theorem plainText_nil : PlainText ([] : List (Event eng)) := fun _ h => by cases h

theorem PlainText.andThen {p : Parsed eng} {f : Expr eng × List Char → Parsed eng}
    (hp : PlainText p.log) (hf : ∀ a, PlainText (f a).log) : PlainText (p.andThen f).log := by
  cases h : p.outcome with
  | error halt => rw [Logged.andThen_of_error h]; exact hp
  | ok a => rw [Logged.andThen_of_ok h]; exact hp.append (hf a)

theorem comparison_plainText : PlainText (comparison s : Parsed eng).log := by
  unfold comparison
  split
  case h_1 field op valueAt e rest hhead _ =>
    refine (PlainText.cons_text (plainTo_comparisonHead hhead) ?_)
    intro cs hcs
    simp at hcs
  case h_2 => exact plainText_nil
  case h_3 => exact plainText_nil

theorem closeParen_plainText (p : Expr eng × List Char) : PlainText (closeParen p).log := by
  unfold closeParen
  split
  case h_1 rest hclose =>
    refine PlainText.cons_text (hclose ▸ plainTo_multispace0 p.2) ?_
    intro cs hcs
    simp at hcs
  case h_2 => exact plainText_nil

theorem parse_plainText (n : ℕ) (rule : Rule eng) (s : List Char) :
    PlainText (parse n rule s).log := by
  induction n generalizing rule s with
  | zero => exact plainText_nil
  | succ n ih =>
    cases rule with
    | orExpr => exact (ih _ s).andThen (fun a => ih _ a.2)
    | orLoop result =>
      rw [parse]
      split
      case h_1 afterOr hword =>
        exact PlainText.cons_text ((plainTo_trimStart s).trans
            (plainTo_keyword hword (all_iff_forall_prop.mp (by decide))))
          ((ih _ afterOr).andThen (fun a => ih _ a.2))
      case h_2 => exact plainText_nil
    | andExpr =>
      exact PlainText.cons_text (plainTo_multispace0 s) ((ih _ _).andThen (fun a => ih _ a.2))
    | andLoop result =>
      rw [parse]
      split
      case h_1 afterAnd hword =>
        exact PlainText.cons_text ((plainTo_trimStart s).trans
            (plainTo_keyword hword (all_iff_forall_prop.mp (by decide))))
          ((ih _ afterAnd).andThen (fun a => ih _ a.2))
      case h_2 => exact plainText_nil
    | notExpr =>
      rw [parse]
      split
      case h_1 afterNot hword =>
        exact PlainText.cons_text
          ((plainTo_multispace0 s).trans
            (plainTo_keyword hword (all_iff_forall_prop.mp (by decide))))
          ((ih _ afterNot).andThen (fun _ => plainText_nil))
      case h_2 => exact PlainText.cons_text (plainTo_multispace0 s) (ih _ _)
    | atom =>
      rw [parse]
      split
      case h_1 inner hopen =>
        refine PlainText.cons_text (hopen ▸ plainTo_multispace0 s) ?_
        refine PlainText.append (a := [.openGroup]) (fun cs hcs => by simp at hcs) ?_
        exact (ih _ inner).andThen closeParen_plainText
      case h_2 =>
        exact PlainText.cons_text (plainTo_multispace0 s) (comparison_plainText _)

/-! ## The two counts -/

theorem depthAfter_outside (h : PlainText log) (d : ℕ) :
    depthAfter parenMark d (log.flatMap Event.outside) = depthAfter groupMark d log := by
  induction log generalizing d with
  | nil => rfl
  | cons ev log ih =>
    have hlog : PlainText log := fun cs hcs => h cs (mem_cons_of_mem ev hcs)
    rw [flatMap_cons, depthAfter_append, ih hlog, depthAfter_cons]
    cases ev with
    | text cs => rw [Event.outside, depthAfter_of_none (h cs (mem_cons_self ..))]; rfl
    | openGroup => rfl
    | closeGroup e => rfl
    | value op cs => rfl

theorem peak_outside (h : PlainText log) (d : ℕ) :
    peak parenMark d (log.flatMap Event.outside) = peak groupMark d log := by
  induction log generalizing d with
  | nil => rfl
  | cons ev log ih =>
    have hlog : PlainText log := fun cs hcs => h cs (mem_cons_of_mem ev hcs)
    rw [flatMap_cons, peak_append, ih hlog, peak]
    have hle := le_peak groupMark (step groupMark d ev) log
    cases ev with
    | text cs =>
      have hplain := h cs (mem_cons_self ..)
      rw [Event.outside, peak_of_none hplain, depthAfter_of_none hplain]
      rfl
    | openGroup =>
      have hpeak : peak parenMark d ['('] = max d (d + 1) := rfl
      rw [Event.outside, hpeak, max_assoc]
      exact congrArg _ (max_eq_right hle)
    | closeGroup e =>
      have hpeak : peak parenMark d [')'] = max d (d - 1) := rfl
      rw [Event.outside, hpeak, max_assoc]
      exact congrArg _ (max_eq_right hle)
    | value op cs => rfl

/-- Values that close their own parentheses leave the count of the check at that of the groups. -/
theorem depthAfter_logText (h : PlainText log) (hclose : valuesClose log = true) (d : ℕ) :
    depthAfter parenMark d (logText log) = depthAfter groupMark d log := by
  induction log generalizing d with
  | nil => rfl
  | cons ev log ih =>
    have hlog : PlainText log := fun cs hcs => h cs (mem_cons_of_mem ev hcs)
    rw [valuesClose, all_cons, Bool.and_eq_true] at hclose
    rw [logText_cons, depthAfter_append, ih hlog hclose.2, depthAfter_cons]
    cases ev with
    | text cs => rw [Event.chars, depthAfter_of_none (h cs (mem_cons_self ..))]; rfl
    | openGroup => rfl
    | closeGroup e => rfl
    | value op cs =>
      have hdepth : depthAfter parenMark d cs = d := depthAfter_of_closes hclose.1 d
      rw [Event.chars, hdepth]
      rfl

/-- The count of the check stays within a bound when the groups do and the values do on top of
them. -/
theorem peak_logText_le_iff (h : PlainText log) (hclose : valuesClose log = true) (bound d : ℕ) :
    peak parenMark d (logText log) ≤ bound ↔
      peak groupMark d log ≤ bound ∧ valuesWithin bound d log = true := by
  induction log generalizing d with
  | nil => simp [peak, valuesWithin]
  | cons ev log ih =>
    have hlog : PlainText log := fun cs hcs => h cs (mem_cons_of_mem ev hcs)
    rw [valuesClose, all_cons, Bool.and_eq_true] at hclose
    have hgroup : ∀ {d' groups : ℕ} {values : Prop}, d' ≤ groups →
        ((d ≤ bound ∧ d' ≤ bound) ∧ groups ≤ bound ∧ values ↔
          (d ≤ bound ∧ groups ≤ bound) ∧ values) := by
      intro d' groups values hle
      have htrans : groups ≤ bound → d' ≤ bound := hle.trans
      tauto
    rw [logText_cons, peak_append, peak, max_le_iff, max_le_iff]
    cases ev with
    | text cs =>
      have hplain := h cs (mem_cons_self ..)
      rw [Event.chars, peak_of_none hplain, depthAfter_of_none hplain, ih hlog hclose.2]
      exact (and_assoc).symm
    | openGroup =>
      have hpeak : peak parenMark d ['('] = max d (d + 1) := rfl
      have hdepth : depthAfter parenMark d ['('] = d + 1 := rfl
      rw [Event.chars, hpeak, hdepth, ih hlog hclose.2, valuesWithin, max_le_iff]
      exact hgroup (le_peak groupMark _ log)
    | closeGroup e =>
      have hpeak : peak parenMark d [')'] = max d (d - 1) := rfl
      have hdepth : depthAfter parenMark d [')'] = d - 1 := rfl
      rw [Event.chars, hpeak, hdepth, ih hlog hclose.2, valuesWithin, max_le_iff]
      exact hgroup (le_peak groupMark _ log)
    | value op cs =>
      have hpeak : peak parenMark d cs = d + peak parenMark 0 cs := peak_of_closes hclose.1 d
      have hdepth : depthAfter parenMark d cs = d := depthAfter_of_closes hclose.1 d
      rw [Event.chars, hpeak, hdepth, ih hlog hclose.2, valuesWithin, Bool.and_eq_true,
        decide_eq_true_eq]
      simp only [step, groupMark]
      constructor
      · rintro ⟨hvalue, hgroups, hvalues⟩
        exact ⟨⟨by omega, hgroups⟩, hvalue, hvalues⟩
      · rintro ⟨⟨-, hgroups⟩, hvalue, hvalues⟩
        exact ⟨hvalue, hgroups, hvalues⟩

theorem logText_append_unread (s : List Char) :
    logText (parseOrExpr s : Parsed eng).log ++ unread eng s = s :=
  prefix_iff_eq_append.mp (parse_covers _ _ s).front

theorem openGroups_le_groupNesting : openGroups eng s ≤ groupNesting eng s := by
  have hplain : PlainText (parseOrExpr s : Parsed eng).log := parse_plainText _ _ s
  rw [groupNesting, peak_append, peak_outside hplain]
  exact le_max_left _ _

theorem checkNestingDepth_iff_of_valuesClose {s : List Char}
    (hclose : valuesClose (parseOrExpr s : Parsed eng).log = true) :
    checkNestingDepth s = true ↔ groupNesting eng s ≤ maxNestingDepth ∧
      valuesWithin maxNestingDepth 0 (parseOrExpr s : Parsed eng).log = true := by
  have hplain : PlainText (parseOrExpr s : Parsed eng).log := parse_plainText _ _ s
  rw [checkNestingDepth_iff, groupNesting, peak_append, peak_outside hplain,
    depthAfter_outside hplain, max_le_iff]
  have hsplit := @logText_append_unread eng s
  conv_lhs => rw [← hsplit]
  rw [peak_append, max_le_iff, peak_logText_le_iff hplain hclose, depthAfter_logText hplain hclose]
  constructor
  · rintro ⟨⟨hgroups, hvalues⟩, hunread⟩
    exact ⟨⟨hgroups, hunread⟩, hvalues⟩
  · rintro ⟨⟨hgroups, hunread⟩, hvalues⟩
    exact ⟨⟨hgroups, hvalues⟩, hunread⟩

/-- The check and the parser agree on a text whose values close their parentheses exactly if, where
the groups stay within the bound, the values do so on top of them. -/
theorem nestingGuarded_iff {s : List Char}
    (hclose : valuesClose (parseOrExpr s : Parsed eng).log = true) :
    NestingGuarded eng s ↔ (groupNesting eng s ≤ maxNestingDepth →
      valuesWithin maxNestingDepth 0 (parseOrExpr s : Parsed eng).log = true) := by
  have hcheck := checkNestingDepth_iff_of_valuesClose hclose
  constructor
  · rintro ⟨-, haccept⟩ hgroups
    exact (hcheck.mp (haccept hgroups)).2
  · intro hvalues
    refine ⟨?_, ?_⟩
    · intro haccepted
      exact (openGroups_le_groupNesting s).trans (hcheck.mp haccepted).1
    · intro hgroups
      exact hcheck.mpr ⟨hgroups, hvalues hgroups⟩

def noEngines : Engines where
  Regex := Empty
  BytesRegex := Empty
  Number := Empty
  regex _ := none
  bytesRegex _ := none
  number _ := none
  parseInstant _ := none
  toRfc3339 _ := []

/-- Groups inside one another, each with a quoted `)` behind its `(`. -/
def quotedClosers (n : ℕ) : List Char :=
  (List.replicate n "(ua == ')' AND ".toList).flatten ++ "ua == x".toList ++ List.replicate n ')'

def quotedOpeners (n : ℕ) : List Char :=
  "ua == '".toList ++ List.replicate n '(' ++ "'".toList

/-- Fifty-one groups pass the check, and a value of fifty-one parentheses does not. -/
theorem nesting_check_misled :
    (checkNestingDepth (quotedClosers 51) = true ∧ openGroups noEngines (quotedClosers 51) = 51) ∧
      (groupNesting noEngines (quotedOpeners 51) = 0 ∧
        checkNestingDepth (quotedOpeners 51) = false) ∧
      ¬ ∀ eng s, NestingGuarded eng s := by
  have hopen : openGroups noEngines (quotedClosers 51) = 51 := by decide +kernel
  have hpass : checkNestingDepth (quotedClosers 51) = true := by decide +kernel
  refine ⟨⟨hpass, hopen⟩, ⟨by decide +kernel, by decide +kernel⟩, ?_⟩
  intro h
  have hle := (h noEngines (quotedClosers 51)).1 hpass
  rw [hopen] at hle
  exact absurd hle (by decide)

theorem nestingGuarded_iff_closedValues :
    valuesClose (parseOrExpr "(ua == f(x)) AND NOT ua == 'g()'".toList : Parsed noEngines).log
        = true ∧
      NestingGuarded noEngines "(ua == f(x)) AND NOT ua == 'g()'".toList :=
  ⟨by decide +kernel, (nestingGuarded_iff (by decide +kernel)).mpr (fun _ => by decide +kernel)⟩

end Sipnab.Dsl
