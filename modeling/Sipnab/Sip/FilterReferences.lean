import Sipnab.Sip.FilterPasting

/-!
# What a reference means

Each group of a run is a run of its own over the text behind its `(`. A reference replaced by the
text of its definition is therefore read as that definition where the parser opens a group for it,
and as text where the replacement stands in a value.
-/

namespace Sipnab.Dsl

open Text Nesting List

variable {eng : Engines}

/-! ## Groups of a run -/

def group (n : ℕ) (inner : List Char) : Parsed eng := (parse n .orExpr inner).andThen closeParen

/-- Each group in the log is a run over the text behind its `(`, and has an end if the whole run
does. -/
def Groups (s : List Char) (p : Parsed eng) : Prop :=
  ∀ a b, p.log = a ++ Event.openGroup :: b → ∃ n inner rest, logText a ++ '(' :: inner = s ∧
    b = (group n inner : Parsed eng).log ++ rest ∧
    ((∃ c, p.outcome = .ok c) → ∃ c, (group n inner : Parsed eng).outcome = .ok c)

theorem split_append_cons {α : Type} {a b l m : List α} {x : α} (h : l ++ m = a ++ x :: b) :
    (∃ b', l = a ++ x :: b' ∧ b = b' ++ m) ∨ (∃ a', a = l ++ a' ∧ m = a' ++ x :: b) := by
  obtain ⟨a', rfl, hm⟩ | ⟨c', rfl, hb⟩ := append_eq_append_iff.mp h
  · exact Or.inr ⟨a', rfl, hm⟩
  · cases c' with
    | nil => exact Or.inr ⟨[], by simp, hb.symm⟩
    | cons y c' =>
      obtain ⟨rfl, rfl⟩ := List.cons.inj hb
      exact Or.inl ⟨c', rfl, rfl⟩

namespace Groups

variable {s rest : List Char} {p : Parsed eng}

theorem of_not_mem (h : .openGroup ∉ p.log) : Groups s p := by
  intro a b hlog
  exact absurd (by rw [hlog]; simp) h

theorem after (hp : Groups rest p) {log : List (Event eng)} (hnone : .openGroup ∉ log)
    (hlog : logText log ++ rest = s) : Groups s (p.after log) := by
  intro a b heq
  obtain ⟨b', rfl, -⟩ | ⟨a', rfl, hrest⟩ := split_append_cons heq
  · exact absurd (by simp) hnone
  · obtain ⟨n, inner, more, hinner, hb, hok⟩ := hp a' b hrest
    exact ⟨n, inner, more, by rw [logText_append, append_assoc, hinner, hlog], hb, hok⟩

theorem andThen (hs : Covers s p) (hp : Groups s p) {f : Expr eng × List Char → Parsed eng}
    (hf : ∀ e rest, p.outcome = .ok (e, rest) → Groups rest (f (e, rest))) :
    Groups s (p.andThen f) := by
  cases hout : p.outcome with
  | error halt =>
    rw [Logged.andThen_of_error hout]
    intro a b heq
    obtain ⟨n, inner, more, hinner, hb, -⟩ := hp a b heq
    exact ⟨n, inner, more, hinner, hb, fun ⟨_, hc⟩ => by cases hc⟩
  | ok c =>
    rw [Logged.andThen_of_ok hout]
    intro a b heq
    obtain ⟨b', hlog, rfl⟩ | ⟨a', rfl, hrest⟩ := split_append_cons heq
    · obtain ⟨n, inner, more, hinner, rfl, hok⟩ := hp a b' hlog
      exact ⟨n, inner, more ++ (f c).log, hinner, by rw [append_assoc], fun _ => hok ⟨c, hout⟩⟩
    · obtain ⟨n, inner, more, hinner, hb, hok⟩ := hf c.1 c.2 hout a' b hrest
      exact ⟨n, inner, more, by
        rw [logText_append, append_assoc, hinner, hs.all c.1 c.2 hout], hb, hok⟩

end Groups

theorem closeParen_groups (s : List Char) (p : Expr eng × List Char) : Groups s (closeParen p) := by
  apply Groups.of_not_mem
  unfold closeParen
  split <;> simp [Logged.done, Logged.fail]

theorem comparison_groups (s : List Char) : Groups s (comparison s : Parsed eng) := by
  apply Groups.of_not_mem
  unfold comparison
  split <;> simp [Logged.done, Logged.fail]

theorem groups_text {s rest : List Char} {p : Parsed eng} (h : Groups rest p) (hs : rest <:+ s) :
    Groups s (p.after [.text (consumed s rest)]) :=
  h.after (by simp) (by simp [Event.chars, hs])

theorem parse_groups (n : ℕ) (rule : Rule eng) (s : List Char) : Groups s (parse n rule s) := by
  induction n generalizing rule s with
  | zero => exact Groups.of_not_mem (by simp [parse])
  | succ n ih =>
    cases rule with
    | orExpr => exact Groups.andThen (parse_covers n _ s) (ih _ s) (fun e rest _ => ih _ rest)
    | orLoop result =>
      rw [parse]
      split
      case h_1 afterOr hword =>
        exact groups_text (Groups.andThen (parse_covers n _ afterOr) (ih _ afterOr)
          (fun e rest _ => ih _ rest)) ((keyword_suffix hword).trans (trimStart_suffix s))
      case h_2 => exact Groups.of_not_mem (by simp)
    | andExpr =>
      exact groups_text (Groups.andThen (parse_covers n _ _) (ih _ _) (fun e rest _ => ih _ rest))
        (multispace0_suffix s)
    | andLoop result =>
      rw [parse]
      split
      case h_1 afterAnd hword =>
        exact groups_text (Groups.andThen (parse_covers n _ afterAnd) (ih _ afterAnd)
          (fun e rest _ => ih _ rest)) ((keyword_suffix hword).trans (trimStart_suffix s))
      case h_2 => exact Groups.of_not_mem (by simp)
    | notExpr =>
      rw [parse]
      split
      case h_1 afterNot hword =>
        exact groups_text (Groups.andThen (parse_covers n _ afterNot) (ih _ afterNot)
          (fun e rest _ => Groups.of_not_mem (by simp)))
          ((keyword_suffix hword).trans (multispace0_suffix s))
      case h_2 => exact groups_text (ih _ _) (multispace0_suffix s)
    | atom =>
      rw [parse]
      split
      case h_1 inner hopen =>
        have hsuffix : '(' :: inner <:+ s := hopen ▸ multispace0_suffix s
        have htext : logText [(.text (consumed s ('(' :: inner)) : Event eng)] ++ '(' :: inner = s := by
          simpa [Event.chars] using consumed_append hsuffix
        have hgroup : Groups inner (group n inner : Parsed eng) :=
          Groups.andThen (parse_covers n _ inner) (ih _ inner)
            (fun e rest _ => closeParen_groups rest (e, rest))
        intro a b hlog
        have hlog : .text (consumed s ('(' :: inner)) :: .openGroup ::
            (group n inner : Parsed eng).log = a ++ .openGroup :: b := hlog
        -- the group itself, or one inside it
        cases a with
        | nil => cases hlog
        | cons ev a =>
          rw [cons_append, List.cons.injEq] at hlog
          obtain ⟨rfl, htail⟩ := hlog
          cases a with
          | nil =>
            rw [nil_append, List.cons.injEq] at htail
            exact ⟨n, inner, [], htext, by rw [← htail.2, append_nil], fun hok => hok⟩
          | cons ev a =>
            rw [cons_append, List.cons.injEq] at htail
            obtain ⟨rfl, htail⟩ := htail
            obtain ⟨m, inner', more, hinner, hb, hok⟩ := hgroup a b htail
            refine ⟨m, inner', more, ?_, hb, hok⟩
            rw [← htext, ← hinner]
            simp [Event.chars]
      case h_2 => exact groups_text (comparison_groups _) (multispace0_suffix s)

/-! ## Where a `(` stands -/

def OpensGroup (log : List (Event eng)) (before : List Char) : Prop :=
  ∃ a b, log = a ++ Event.openGroup :: b ∧ logText a = before

def StandsInValue (log : List (Event eng)) (before : List Char) : Prop :=
  ∃ a b op x y, log = a ++ Event.value op (x ++ '(' :: y) :: b ∧ logText a ++ x = before

/-- The group whose `(` stands behind a text ends behind `inner`, and is the expression `e`. -/
def ReadsAs (log : List (Event eng)) (before inner : List Char) (e : Expr eng) : Prop :=
  ∃ a b c, log = a ++ Event.openGroup :: (b ++ Event.closeGroup e :: c) ∧
    logText a = before ∧ logText b = inner

variable {log : List (Event eng)} {before : List Char}

theorem OpensGroup.cons {ev : Event eng} (h : OpensGroup log before) :
    OpensGroup (ev :: log) (ev.chars ++ before) := by
  obtain ⟨a, b, rfl, rfl⟩ := h
  exact ⟨ev :: a, b, rfl, rfl⟩

theorem StandsInValue.cons {ev : Event eng} (h : StandsInValue log before) :
    StandsInValue (ev :: log) (ev.chars ++ before) := by
  obtain ⟨a, b, op, x, y, rfl, rfl⟩ := h
  exact ⟨ev :: a, b, op, x, y, rfl, append_assoc _ _ _⟩

theorem opensGroup_or_standsInValue (h : PlainText log) {rest : List Char}
    (hlog : logText log = before ++ '(' :: rest) :
    OpensGroup log before ∨ StandsInValue log before := by
  induction log generalizing before with
  | nil => exact absurd hlog.symm (append_ne_nil_of_right_ne_nil _ (cons_ne_nil _ _))
  | cons ev log ih =>
    have hplain : PlainText log := fun cs hcs => h cs (mem_cons_of_mem ev hcs)
    rw [logText_cons] at hlog
    obtain ⟨x, hchars, -⟩ | ⟨before', rfl, hrest⟩ := split_append_cons hlog
    · cases ev with
      | text cs =>
        have hmem : '(' ∈ cs := by
          rw [show cs = before ++ '(' :: x from hchars]
          simp
        cases h cs (mem_cons_self ..) '(' hmem
      | openGroup =>
        have hone : ['('] = before ++ '(' :: x := hchars
        cases before with
        | nil => exact Or.inl ⟨[], log, rfl, rfl⟩
        | cons c before => simp at hone
      | closeGroup e =>
        have hone : [')'] = before ++ '(' :: x := hchars
        cases before <;> simp at hone
      | value op cs =>
        have hvalue : cs = before ++ '(' :: x := hchars
        subst hvalue
        exact Or.inr ⟨[], log, op, before, x, rfl, rfl⟩
    · exact (ih hplain hrest).imp OpensGroup.cons StandsInValue.cons

theorem OpensGroup.not_standsInValue (h : OpensGroup log before) : ¬ StandsInValue log before := by
  induction log generalizing before with
  | nil =>
    obtain ⟨a, b, hlog, -⟩ := h
    simp at hlog
  | cons ev log ih =>
    rintro ⟨a', b', op, x, y, hlog', hbefore'⟩
    obtain ⟨a, b, hlog, hbefore⟩ := h
    cases a with
    | nil =>
      obtain ⟨rfl, -⟩ := List.cons.inj hlog
      cases a' with
      | nil => cases (List.cons.inj hlog').1
      | cons ev a' =>
        obtain ⟨rfl, -⟩ := List.cons.inj hlog'
        rw [← hbefore] at hbefore'
        cases hbefore'
    | cons ev' a =>
      obtain ⟨rfl, htail⟩ := List.cons.inj hlog
      cases a' with
      | nil =>
        obtain ⟨rfl, -⟩ := List.cons.inj hlog'
        have hlength := congrArg List.length (hbefore.trans hbefore'.symm)
        simp [Event.chars] at hlength
      | cons ev' a' =>
        obtain ⟨rfl, htail'⟩ := List.cons.inj hlog'
        refine ih ⟨a, b, htail, rfl⟩ ⟨a', b', op, x, y, htail', ?_⟩
        rw [← hbefore, logText_cons, logText_cons, append_assoc] at hbefore'
        exact append_cancel_left hbefore'

/-! ## The text of a replaced reference -/

variable {input : List Char} {lookup : List Char → Option (List Char)}

/-- The text in front of what replaces a reference at `start`: the text from `copied` on, with the
references before it replaced. -/
def expandedBefore (input : List Char) (lookup : List Char → Option (List Char)) (start : ℕ) :
    ℕ → List (ℕ × ℕ) → List Char
  | copied, [] => (input.take start).drop copied
  | copied, span :: spans =>
    match lookup (spanName input span) with
    | some text =>
      (input.take span.1).drop copied ++ '(' :: text ++ ')' ::
        expandedBefore input lookup start span.2 spans
    | none => expandedBefore input lookup start copied spans

theorem substituteFrom_append {span : ℕ × ℕ} {text : List Char}
    (htext : lookup (spanName input span) = some text) (copied : ℕ)
    (spans spans' : List (ℕ × ℕ)) :
    substituteFrom input lookup copied (spans ++ span :: spans') =
      expandedBefore input lookup span.1 copied spans ++ '(' :: (text ++ ')' ::
        substituteFrom input lookup span.2 spans') := by
  induction spans generalizing copied with
  | nil => simp [substituteFrom, expandedBefore, htext]
  | cons first spans ih =>
    cases hfirst : lookup (spanName input first) with
    | none => simp [substituteFrom, expandedBefore, hfirst, ih]
    | some other => simp [substituteFrom, expandedBefore, hfirst, ih]

theorem trimStart_append_cons {c : Char} (hc : isWhitespace c = false) (s x : List Char) :
    trimStart (s ++ c :: x) = trimStart s ++ c :: x := by
  rw [trimStart, trimStart, dropWhile_append]
  split
  case isTrue hnil =>
    rw [List.isEmpty_iff] at hnil
    rw [hnil, dropWhile_cons_of_neg (by simp [hc]), nil_append]
  case isFalse => rfl

theorem trim_append_trailing (s : List Char) : trim s ++ trailing s = trimStart s := by
  rw [trim, trimEnd, trailing, ← reverse_append, takeWhile_append_dropWhile, reverse_reverse]

theorem trim_group (before text after : List Char) :
    ∃ after', trim (before ++ '(' :: (text ++ ')' :: after)) =
      trimStart before ++ '(' :: (text ++ ')' :: after') := by
  have hall : trim (before ++ '(' :: (text ++ ')' :: after)) ++
      trailing (before ++ '(' :: (text ++ ')' :: after)) =
        (trimStart before ++ '(' :: text) ++ ')' :: after := by
    rw [trim_append_trailing, trimStart_append_cons (by decide)]
    simp
  obtain ⟨after', htrim, -⟩ | ⟨a', -, htrail⟩ := split_append_cons hall
  · exact ⟨after', by rw [htrim]; simp⟩
  · have hblank := isWhitespace_of_mem_trailing (s := before ++ '(' :: (text ++ ')' :: after)) ')'
      (by rw [htrail]; simp)
    cases hblank

variable {f d : FilterExpr eng} {text : List Char}

theorem Accepted.group_log (hd : Accepted text d) (hpaste : pastable eng text = true) {n : ℕ}
    {after : List Char} (hok : ∃ c, (group n (text ++ ')' :: after) : Parsed eng).outcome = .ok c) :
    ∃ b, (group n (text ++ ')' :: after) : Parsed eng).log = b ++ [Event.closeGroup d.root] ∧
      logText b = text := by
  obtain ⟨c, hok⟩ := hok
  obtain ⟨a, ha, -, hlog⟩ := Logged.exists_of_andThen hok
  have hfuel := parse_of_le (Ended.of_ok ha) (le_max_left n (fuelFor (trim text)))
  rw [pastable, Bool.and_eq_true, Bool.and_eq_true, Bool.or_eq_true] at hpaste
  obtain ⟨⟨hlead, htrail⟩, hclosed⟩ := hpaste
  have hinner := hd.parse_append (le_max_right n _) hlead (hclosed.imp (by simp) (by simp)) after
  rw [hfuel, ha] at hinner
  cases hinner
  have hclose : closeParen (d.root, trailing text ++ ')' :: after) =
      .done [.text (consumed (trailing text ++ ')' :: after) (')' :: after)), .closeGroup d.root]
        (d.root, after) := by
    rw [closeParen, multispace0_of_all htrail]
    rfl
  refine ⟨(parse n .orExpr (text ++ ')' :: after)).log ++
    [Event.text (consumed (trailing text ++ ')' :: after) (')' :: after))], ?_, ?_⟩
  · rw [group, hlog, hclose]
    simp
  · have hcovers := (parse_covers n .orExpr (text ++ ')' :: after)).all _ _ ha
    have hblanks : consumed (trailing text ++ ')' :: after) (')' :: after) = trailing text := by
      simp [consumed]
    rw [← append_assoc] at hcovers
    rw [hblanks, logText_append]
    simpa [Event.chars] using append_cancel_right hcovers

/-- A reference in an expression that parses is its definition exactly when it stands in no
value. -/
theorem readsAs_definition_iff {span : ℕ × ℕ} {spans spans' : List (ℕ × ℕ)}
    (hspans : referenceSpans input = spans ++ span :: spans')
    (htext : lookup (spanName input span) = some text) (hd : FilterExpr.parse text = .ok d)
    (hpaste : pastable eng text = true)
    (hf : FilterExpr.parse (substituteRefs input lookup) = .ok f) :
    ReadsAs (parseOrExpr (trim (substituteRefs input lookup)) : Parsed eng).log
        (trimStart (expandedBefore input lookup span.1 0 spans)) text d.root ↔
      ¬ StandsInValue (parseOrExpr (trim (substituteRefs input lookup)) : Parsed eng).log
        (trimStart (expandedBefore input lookup span.1 0 spans)) := by
  have hparsed := (parse_eq_ok_iff.mp hf).parsed
  obtain ⟨after, htrim⟩ := trim_group (expandedBefore input lookup span.1 0 spans) text
    (substituteFrom input lookup span.2 spans')
  rw [← substituteFrom_append htext, ← hspans] at htrim
  change trim (substituteRefs input lookup) = _ at htrim
  have hcovers := (parse_covers (fuelFor (trim (substituteRefs input lookup))) .orExpr
    (trim (substituteRefs input lookup))).all _ _ hparsed
  rw [append_nil] at hcovers
  constructor
  · rintro ⟨a, b, c, hlog, hbefore, -⟩
    exact OpensGroup.not_standsInValue ⟨a, _, hlog, hbefore⟩
  · intro hvalue
    obtain ⟨a, b, hlog, hbefore⟩ | hopen := opensGroup_or_standsInValue
      (parse_plainText _ _ (trim (substituteRefs input lookup))) (hcovers.trans htrim)
    · obtain ⟨n, inner, rest, hinner, rfl, hok⟩ := parse_groups _ _ _ a b hlog
      rw [hbefore, htrim] at hinner
      obtain ⟨-, rfl⟩ := List.cons.inj (append_cancel_left hinner)
      obtain ⟨b, hb, hinside⟩ := (parse_eq_ok_iff.mp hd).group_log hpaste (hok ⟨_, hparsed⟩)
      refine ⟨a, b, rest, ?_, hbefore, hinside⟩
      rw [parseOrExpr, hlog, hb, append_assoc, singleton_append]
    · exact absurd hopen hvalue

/-! ## Composition -/

/-- Filters compose as text: two joined by `AND`, one with a window, and one that refers to
others. -/
theorem filters_compose (eng : Engines) :
    (∀ s t (f g : FilterExpr eng), FilterExpr.parse s = .ok f → FilterExpr.parse t = .ok g →
      peak parenMark 0 s + peak parenMark 0 t < maxNestingDepth →
      f.root.countNodes + g.root.countNodes < maxExpressionNodes →
      (JoinsAs (andText s t) f g ↔ pastable eng s = true ∧ pastable eng t = true ∧
        firstReference (andText s t) = none)) ∧
    (∀ s (f : FilterExpr eng) after before, FilterExpr.parse s = .ok f →
      (after ≠ none ∨ before ≠ none) →
      (∀ t ∈ after.toList ++ before.toList, Readable eng t) →
      peak parenMark 0 (trim s) < maxNestingDepth →
      f.root.countNodes + 4 ≤ maxExpressionNodes →
      ((∃ w, FilterExpr.withTimeWindow (some f) after before = some w ∧ Reproduces w) ↔
        endsUnclosed (parseOrExpr (trim s) : Parsed eng).log = false)) ∧
    (∀ after before (w : FilterExpr eng), (∀ t ∈ after.toList ++ before.toList, Readable eng t) →
      FilterExpr.withTimeWindow none after before = some w → Reproduces w) ∧
    (∀ input lookup spans span spans' text (d f : FilterExpr eng),
      referenceSpans input = spans ++ span :: spans' →
      lookup (spanName input span) = some text → FilterExpr.parse text = .ok d →
      pastable eng text = true → FilterExpr.parse (substituteRefs input lookup) = .ok f →
      (ReadsAs (parseOrExpr (trim (substituteRefs input lookup)) : Parsed eng).log
          (trimStart (expandedBefore input lookup span.1 0 spans)) text d.root ↔
        ¬ StandsInValue (parseOrExpr (trim (substituteRefs input lookup)) : Parsed eng).log
          (trimStart (expandedBefore input lookup span.1 0 spans)))) := by
  refine ⟨?_, ?_, ?_, ?_⟩
  · intro s t f g hs ht hdepth hnodes
    exact joinsAs_andText_iff hs ht hdepth hnodes
  · intro s f after before hs hwindow hread hdepth hnodes
    exact reproduces_window_iff hs hwindow hread hdepth hnodes
  · intro after before w hread hw
    exact reproduces_window_alone hread hw
  · intro input lookup spans span spans' text d f hspans htext hd hpaste hf
    exact readsAs_definition_iff hspans htext hd hpaste hf

def epochText : List Char := "1970-01-01T00:00:00Z".toList

/-- Engines that keep a regex as it is written and know one instant. -/
def epochEngines : Engines where
  Regex := List Char
  BytesRegex := List Char
  Number := Empty
  regex := some
  bytesRegex := some
  number _ := none
  parseInstant text := if text = epochText then some 0 else none
  toRfc3339 _ := epochText

def uaIs (value source : List Char) : FilterExpr epochEngines where
  root := .compare .ua .eq (.str value)
  needsDiagnosis := false
  source := source

theorem readable_epoch : ∀ t ∈ (some (0 : ℤ)).toList ++ (none : Option ℤ).toList,
    Readable epochEngines t := by
  intro t ht
  simp only [Option.toList_some, Option.toList_none, append_nil, mem_singleton] at ht
  subst ht
  exact ⟨rfl, all_iff_forall_prop.mp (by decide)⟩

def lookupOne (name text asked : List Char) : Option (List Char) :=
  if asked = name then some text else none

/-- An unclosed value takes the `)` of its group, also in front of a window, and a reference in a
value is text. -/
theorem filters_do_not_compose :
    (FilterExpr.parse "ua == a(b".toList = .ok (uaIs "a(b".toList "ua == a(b".toList) ∧
      FilterExpr.parse "ua == x".toList = .ok (uaIs "x".toList "ua == x".toList) ∧
      (FilterExpr.parse (andText "ua == a(b".toList "ua == x".toList) :
        Except FilterError (FilterExpr epochEngines)).isOk = false) ∧
    (∀ w, FilterExpr.withTimeWindow (some (uaIs "a(b".toList "ua == a(b".toList)) (some 0) none =
      some w → ¬ Reproduces w) ∧
    FilterExpr.parse (substituteRefs "ua == @a".toList (lookupOne "a".toList "ua==x".toList)) =
      .ok (uaIs "(ua==x)".toList "ua == (ua==x)".toList) ∧
    ¬ ∀ s t (f g : FilterExpr epochEngines), FilterExpr.parse s = .ok f →
      FilterExpr.parse t = .ok g →
      peak parenMark 0 s + peak parenMark 0 t < maxNestingDepth →
      f.root.countNodes + g.root.countNodes < maxExpressionNodes → JoinsAs (andText s t) f g := by
  have hrefused : (FilterExpr.parse (andText "ua == a(b".toList "ua == x".toList) :
      Except FilterError (FilterExpr epochEngines)).isOk = false := by decide +kernel
  refine ⟨⟨rfl, rfl, hrefused⟩, ?_, rfl, ?_⟩
  · rintro w hw ⟨g, hg, -⟩
    have hsource : (FilterExpr.parse "(ua == a(b) AND time >= '1970-01-01T00:00:00Z'".toList :
        Except FilterError (FilterExpr epochEngines)).isOk = false := by decide +kernel
    cases hw
    have hg : FilterExpr.parse "(ua == a(b) AND time >= '1970-01-01T00:00:00Z'".toList = .ok g := hg
    rw [hg] at hsource
    cases hsource
  · intro hall
    obtain ⟨joined, hjoined, -⟩ := hall "ua == a(b".toList "ua == x".toList _ _ rfl rfl
      (by decide +kernel) (by decide +kernel)
    rw [hjoined] at hrefused
    cases hrefused

/-- Closed values are joined, put in a window and referred to. -/
theorem filters_compose_closedValues :
    JoinsAs (andText "ua == a(b)".toList "ua == x".toList)
        (uaIs "a(b)".toList "ua == a(b)".toList) (uaIs "x".toList "ua == x".toList) ∧
      (∃ w, FilterExpr.withTimeWindow (some (uaIs "a(b)".toList "ua == a(b)".toList)) (some 0) none =
        some w ∧ Reproduces w) ∧
      (∀ w : FilterExpr epochEngines, FilterExpr.withTimeWindow none (some 0) none = some w →
        Reproduces w) ∧
      ReadsAs (parseOrExpr (trim (substituteRefs "NOT @a".toList
          (lookupOne "a".toList "ua==x".toList))) : Parsed epochEngines).log "NOT ".toList
        "ua==x".toList (uaIs "x".toList []).root := by
  obtain ⟨hjoin, hwindow, halone, href⟩ := filters_compose epochEngines
  refine ⟨?_, ?_, ?_, ?_⟩
  · exact (hjoin _ _ _ _ rfl rfl (by decide +kernel) (by decide +kernel)).mpr (by decide +kernel)
  · exact (hwindow "ua == a(b)".toList _ _ _ rfl (Or.inl (by simp)) readable_epoch
      (by decide +kernel) (by decide +kernel)).mpr (by decide +kernel)
  · intro w hw
    exact halone _ _ w readable_epoch hw
  · refine (href "NOT @a".toList (lookupOne "a".toList "ua==x".toList) [] (4, 6) [] "ua==x".toList
      (uaIs "x".toList "ua==x".toList)
      ⟨.not (.compare .ua .eq (.str "x".toList)), false, "NOT (ua==x)".toList⟩ (by decide +kernel)
      (by decide +kernel) rfl (by decide +kernel) rfl).mpr ?_
    apply OpensGroup.not_standsInValue
    exact ⟨[.text [], .text "NOT ".toList, .text []], _, rfl, rfl⟩

end Sipnab.Dsl
