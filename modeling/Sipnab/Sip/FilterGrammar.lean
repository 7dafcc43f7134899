import Sipnab.Sip.FilterDsl

/-!
# What the filter parser reads

Every function of the parser takes text off the front of its input, and the log of a run is that
text cut into pieces. The parser ends: with as many calls as `fuelFor` allows it never runs out, and
more of them change nothing.
-/

namespace Sipnab.Dsl

open Text List

variable {eng : Engines}

/-! ## What the scanners leave -/

theorem multispace0_suffix (s : List Char) : multispace0 s <:+ s := dropWhile_suffix _

theorem trimStart_suffix (s : List Char) : trimStart s <:+ s := dropWhile_suffix _

variable {word valueAt : List Char} {field : Field} {op : Operator} {n : ℕ}

variable {s rest : List Char}

theorem keyword_eq_some (h : keyword word s = some rest) :
    eqIgnoreAsciiCase (s.take word.length) word = true ∧
      ∃ c t, s.drop word.length = c :: t ∧ isMultispace c = true ∧ rest = multispace0 t := by
  unfold keyword at h
  split at h
  case isFalse => cases h
  case isTrue hword =>
    refine ⟨hword, ?_⟩
    split at h
    case h_2 => cases h
    case h_1 c t hdrop =>
      split at h
      case isFalse => cases h
      case isTrue hc => exact ⟨c, t, hdrop, hc, (Option.some.inj h).symm⟩

theorem keyword_suffix (h : keyword word s = some rest) : rest <:+ s := by
  obtain ⟨-, c, t, hdrop, -, rfl⟩ := keyword_eq_some h
  have ht : t <:+ s := by
    have hcons : c :: t <:+ s := hdrop ▸ drop_suffix _ _
    exact (suffix_cons c t).trans hcons
  exact (multispace0_suffix t).trans ht

variable {text : List Char} {e : Expr eng} {rule : Rule eng}

theorem scanQuotedString_cons_suffix {quote : Char}
    (h : scanQuotedString quote s = some (text, rest)) : ∃ c, c :: rest <:+ s := by
  induction s using scanQuotedString.induct quote generalizing text with
  | case1 => cases h
  | case2 => cases h
  | case3 c t ih =>
    rw [scanQuotedString] at h
    obtain ⟨⟨text', rest'⟩, hscan, heq⟩ := Option.map_eq_some_iff.mp h
    cases heq
    exact (ih hscan).imp (fun _ hlast => hlast.trans ((suffix_cons c t).trans (suffix_cons _ _)))
  | case4 t hne hnil =>
    rw [scanQuotedString, if_pos rfl] at h
    · cases h
      exact ⟨quote, suffix_rfl⟩
    · exact hne
    · exact hnil
  | case5 c t hne hnil hquote ih =>
    rw [scanQuotedString, if_neg hquote] at h
    · obtain ⟨⟨text', rest'⟩, hscan, heq⟩ := Option.map_eq_some_iff.mp h
      cases heq
      exact (ih hscan).imp (fun _ hlast => hlast.trans (suffix_cons c t))
    · exact hne
    · exact hnil

theorem scanQuotedString_suffix {quote : Char} (h : scanQuotedString quote s = some (text, rest)) :
    rest <:+ s := by
  obtain ⟨c, hlast⟩ := scanQuotedString_cons_suffix h
  exact (suffix_cons c rest).trans hlast

theorem headerName_suffix {name : List Char} (h : headerName s = some (name, rest)) :
    rest <:+ s := by
  unfold headerName at h
  split at h
  case h_1 quote t =>
    split at h
    case isTrue => exact (scanQuotedString_suffix h).trans (suffix_cons quote t)
    case isFalse =>
      cases h
      exact dropWhile_suffix _
  case h_2 =>
    cases h
    exact suffix_rfl

theorem identifier_suffix (s : List Char) : (identifier s).2 <:+ s := by
  unfold identifier
  dsimp only
  split
  case h_1 rest hdrop =>
    have hrest : '.' :: rest <:+ s := hdrop ▸ dropWhile_suffix _
    split
    · exact hrest
    · exact (dropWhile_suffix _).trans ((suffix_cons '.' rest).trans hrest)
  case h_2 => exact dropWhile_suffix _

theorem parseField_suffix (h : parseField s = .ok (field, rest)) : rest <:+ s := by
  unfold parseField at h
  split at h
  · unfold parseHeaderField at h
    split at h
    case h_1 => cases h
    case h_2 name rest' hname =>
      split_ifs at h
      cases h
      exact (headerName_suffix hname).trans (drop_suffix _ _)
  · dsimp only at h
    split_ifs at h
    split at h
    case h_1 =>
      cases h
      exact identifier_suffix s
    case h_2 => cases h

theorem parseOperator_suffix (h : parseOperator s = .ok (op, rest)) : rest <:+ s := by
  unfold parseOperator at h
  split at h
  case h_1 =>
    cases h
    exact drop_suffix _ _
  case h_2 => cases h

theorem scanBareValue_append (s : List Char) (regex : Bool) :
    (scanBareValue s regex).1 ++ (scanBareValue s regex).2 = s := Scanner.scan_fst_append_snd _ s

theorem valueText_suffix (h : valueText s op = .ok (text, rest)) : rest <:+ s := by
  unfold valueText at h
  split at h
  case h_1 => cases h
  case h_2 c body =>
    split at h
    · split at h
      · cases h
      · rename_i p hscan
        cases h
        exact (scanQuotedString_suffix hscan).trans (suffix_cons c body)
    · dsimp only at h
      split_ifs at h
      have hscan : scanBareValue (c :: body) (op == .regex) = (text, rest) := Except.ok.inj h
      have happend := scanBareValue_append (c :: body) (op == .regex)
      rw [hscan] at happend
      exact ⟨text, happend⟩

theorem parseComparison_eq_ok (h : parseComparison s = .ok (e, rest)) :
    ∃ field op valueAt text value, comparisonHead s = .ok (field, op, valueAt) ∧
      valueText (multispace0 valueAt) op = .ok (text, rest) ∧
      readValue (multispace0 valueAt) text field op = .ok value ∧ e = .compare field op value := by
  unfold parseComparison parseValue at h
  cases hhead : comparisonHead s with
  | error err => rw [hhead] at h; cases h
  | ok p =>
    obtain ⟨field, op, valueAt⟩ := p
    rw [hhead] at h
    dsimp only [bind, Except.bind] at h
    cases htext : valueText (multispace0 valueAt) op with
    | error err => rw [htext] at h; cases h
    | ok q =>
      obtain ⟨text, rest'⟩ := q
      rw [htext] at h
      dsimp only at h
      cases hread : @readValue eng (multispace0 valueAt) text field op with
      | error err => rw [hread] at h; cases h
      | ok value =>
        rw [hread] at h
        cases h
        exact ⟨field, op, valueAt, text, value, rfl, htext, hread, rfl⟩

theorem comparisonHead_eq_ok (h : comparisonHead s = .ok (field, op, valueAt)) :
    ∃ afterField afterOp, parseField (multispace0 s) = .ok (field, afterField) ∧
      parseOperator (multispace0 afterField) = .ok (op, afterOp) ∧
      ¬ (field = .time ∧ op ∉ timeOperators) ∧
      ¬ (field.valueKind = .boolean ∧ op ≠ .eq ∧ op ≠ .ne) ∧ valueAt = multispace0 afterOp := by
  unfold comparisonHead at h
  cases hfield : parseField (multispace0 s) with
  | error err => rw [hfield] at h; cases h
  | ok p =>
    obtain ⟨field', afterField⟩ := p
    rw [hfield] at h
    dsimp only [bind, Except.bind] at h
    cases hop : parseOperator (multispace0 afterField) with
    | error err => rw [hop] at h; cases h
    | ok q =>
      obtain ⟨op', afterOp⟩ := q
      rw [hop] at h
      dsimp only at h
      split_ifs at h with htime hbool
      cases h
      exact ⟨afterField, afterOp, rfl, hop, htime, hbool, rfl⟩

theorem comparisonHead_suffix (h : comparisonHead s = .ok (field, op, valueAt)) :
    valueAt <:+ s := by
  obtain ⟨afterField, afterOp, hfield, hop, -, -, rfl⟩ := comparisonHead_eq_ok h
  exact (multispace0_suffix _).trans ((parseOperator_suffix hop).trans ((multispace0_suffix _).trans
    ((parseField_suffix hfield).trans (multispace0_suffix s))))

theorem multispace0_multispace0 (s : List Char) : multispace0 (multispace0 s) = multispace0 s :=
  dropWhile_idempotent isMultispace s

theorem multispace0_valueAt (h : comparisonHead s = .ok (field, op, valueAt)) :
    multispace0 valueAt = valueAt := by
  obtain ⟨-, afterOp, -, -, -, -, rfl⟩ := comparisonHead_eq_ok h
  exact multispace0_multispace0 afterOp

/-! ## The log of a run -/

def Event.chars : Event eng → List Char
  | .text cs => cs
  | .openGroup => ['(']
  | .closeGroup _ => [')']
  | .value _ cs => cs

def logText (log : List (Event eng)) : List Char := log.flatMap Event.chars

@[simp] theorem logText_nil : logText ([] : List (Event eng)) = [] := rfl

@[simp] theorem logText_cons (ev : Event eng) (log : List (Event eng)) :
    logText (ev :: log) = ev.chars ++ logText log := rfl

@[simp] theorem logText_append (a b : List (Event eng)) :
    logText (a ++ b) = logText a ++ logText b := flatMap_append

@[simp] theorem consumed_append (h : rest <:+ s) : consumed s rest ++ rest = s := by
  obtain ⟨t, rfl⟩ := h
  rw [consumed, length_append, Nat.add_sub_cancel, take_left]

/-- The log is text from the front of the input; all of it up to what is left, if there is no
error. -/
structure Covers (s : List Char) (p : Parsed eng) : Prop where
  front : logText p.log <+: s
  all : ∀ e rest, p.outcome = .ok (e, rest) → logText p.log ++ rest = s

namespace Covers

variable {s rest : List Char} {p : Parsed eng}

variable {log : List (Event eng)}

theorem done {e : Expr eng} (h : logText log ++ rest = s) :
    Covers s (.done log (e, rest)) where
  front := ⟨rest, h⟩
  all := by
    rintro e' rest' heq
    cases heq
    exact h

theorem fail (s : List Char) (halt : Halt) : Covers s (.fail halt : Parsed eng) where
  front := nil_prefix
  all := fun _ _ heq => by cases heq

theorem after (h : Covers rest p) (hlog : logText log ++ rest = s) :
    Covers s (p.after log) where
  front := by
    rw [Logged.log_after, logText_append, ← hlog]
    exact (prefix_append_right_inj _).mpr h.front
  all := by
    intro e rest' heq
    rw [Logged.log_after, logText_append, append_assoc, h.all e rest' heq, hlog]

theorem andThen (h : Covers s p) {f : Expr eng × List Char → Parsed eng}
    (hf : ∀ e rest, p.outcome = .ok (e, rest) → Covers rest (f (e, rest))) :
    Covers s (p.andThen f) := by
  cases hp : p.outcome with
  | error err =>
    rw [Logged.andThen_of_error hp]
    exact ⟨h.front, fun _ _ heq => by cases heq⟩
  | ok a =>
    rw [Logged.andThen_of_ok hp]
    exact (hf a.1 a.2 hp).after (h.all a.1 a.2 hp)

end Covers

theorem comparison_covers (s : List Char) : Covers s (comparison s : Parsed eng) := by
  unfold comparison
  split
  case h_1 field op valueAt e rest hhead hcmp =>
    obtain ⟨field', op', valueAt', text, value, hhead', htext, -, -⟩ := parseComparison_eq_ok hcmp
    rw [hhead] at hhead'
    cases hhead'
    rw [multispace0_valueAt hhead] at htext
    apply Covers.done
    simp [Event.chars, comparisonHead_suffix hhead, valueText_suffix htext]
  case h_2 => exact Covers.fail s _
  case h_3 => exact Covers.fail s _

theorem closeParen_covers (p : Expr eng × List Char) : Covers p.2 (closeParen p) := by
  unfold closeParen
  split
  case h_1 rest hclose =>
    have hsuffix : ')' :: rest <:+ p.2 := hclose ▸ multispace0_suffix p.2
    apply Covers.done
    simpa [Event.chars] using consumed_append hsuffix
  case h_2 => exact Covers.fail _ _

theorem covers_text {p : Parsed eng} (h : Covers rest p) (hs : rest <:+ s) :
    Covers s (p.after [.text (consumed s rest)]) := h.after (by simp [Event.chars, hs])

theorem parse_covers (n : ℕ) (rule : Rule eng) (s : List Char) : Covers s (parse n rule s) := by
  induction n generalizing rule s with
  | zero => exact Covers.fail s _
  | succ n ih =>
    cases rule with
    | orExpr => exact (ih .andExpr s).andThen (fun e rest _ => ih (.orLoop e) rest)
    | orLoop result =>
      rw [parse]
      split
      case h_1 afterOr hword =>
        exact covers_text ((ih .andExpr afterOr).andThen (fun e rest _ => ih _ rest))
          ((keyword_suffix hword).trans (trimStart_suffix s))
      case h_2 => exact Covers.done rfl
    | andExpr =>
      exact covers_text ((ih .notExpr _).andThen (fun e rest _ => ih (.andLoop e) rest))
        (multispace0_suffix s)
    | andLoop result =>
      rw [parse]
      split
      case h_1 afterAnd hword =>
        exact covers_text ((ih .notExpr afterAnd).andThen (fun e rest _ => ih _ rest))
          ((keyword_suffix hword).trans (trimStart_suffix s))
      case h_2 => exact Covers.done rfl
    | notExpr =>
      rw [parse]
      split
      case h_1 afterNot hword =>
        exact covers_text ((ih .atom afterNot).andThen (fun e rest _ => Covers.done rfl))
          ((keyword_suffix hword).trans (multispace0_suffix s))
      case h_2 => exact covers_text (ih .atom _) (multispace0_suffix s)
    | atom =>
      rw [parse]
      split
      case h_1 inner hopen =>
        have hsuffix : '(' :: inner <:+ s := hopen ▸ multispace0_suffix s
        apply ((ih .orExpr inner).andThen (fun e rest _ => closeParen_covers (e, rest))).after
        simpa [Event.chars] using consumed_append hsuffix
      case h_2 => exact covers_text (comparison_covers _) (multispace0_suffix s)

theorem parse_suffix (h : (parse n rule s).outcome = .ok (e, rest)) : rest <:+ s :=
  ⟨_, (parse_covers n rule s).all e rest h⟩

/-! ## Fuel -/

def Ended (p : Parsed eng) : Prop := p.outcome ≠ .error .outOfFuel

namespace Ended

variable {p : Parsed eng}

variable {a : Expr eng × List Char} {f : Expr eng × List Char → Parsed eng}

theorem of_ok (h : p.outcome = .ok a) : Ended p := by
  rw [Ended, h]
  exact fun heq => by cases heq

theorem fail (err : NomErr) : Ended (.fail (.error err) : Parsed eng) := fun heq => by cases heq

theorem after_iff {log : List (Event eng)} : Ended (p.after log) ↔ Ended p := Iff.rfl

theorem andThen (hp : Ended p) (hf : ∀ a, p.outcome = .ok a → Ended (f a)) :
    Ended (p.andThen f) := by
  cases h : p.outcome with
  | error halt =>
    rw [Logged.andThen_of_error h, Ended, ← h]
    exact hp
  | ok a =>
    rw [Logged.andThen_of_ok h]
    exact hf a h

theorem of_andThen (h : Ended (p.andThen f)) : Ended p := by
  intro hfuel
  rw [Logged.andThen_of_error hfuel] at h
  exact h rfl

theorem of_andThen_ok (h : Ended (p.andThen f)) (ha : p.outcome = .ok a) : Ended (f a) := by
  rw [Logged.andThen_of_ok ha] at h
  exact h

theorem andThen_congr {p' : Parsed eng} {f' : Expr eng × List Char → Parsed eng}
    (h : Ended (p.andThen f)) (hp : Ended p → p' = p) (hf : ∀ a, Ended (f a) → f' a = f a) :
    p'.andThen f' = p.andThen f := by
  rw [hp h.of_andThen]
  cases ha : p.outcome with
  | error halt => rw [Logged.andThen_of_error ha, Logged.andThen_of_error ha]
  | ok a =>
    rw [Logged.andThen_of_ok ha, Logged.andThen_of_ok ha, hf a (h.of_andThen_ok ha)]

end Ended

theorem parse_succ (h : Ended (parse n rule s)) : parse (n + 1) rule s = parse n rule s := by
  induction n generalizing rule s with
  | zero => exact absurd rfl h
  | succ n ih =>
    cases rule with
    | orExpr => exact h.andThen_congr ih (fun _ => ih)
    | orLoop result =>
      rw [parse] at h ⊢
      conv_rhs => rw [parse]
      split
      case h_1 afterOr hword =>
        rw [hword] at h
        exact congrArg _ (Ended.andThen_congr (Ended.after_iff.mp h) ih (fun _ => ih))
      case h_2 => rfl
    | andExpr => exact congrArg _ (Ended.andThen_congr (Ended.after_iff.mp h) ih (fun _ => ih))
    | andLoop result =>
      rw [parse] at h ⊢
      conv_rhs => rw [parse]
      split
      case h_1 afterAnd hword =>
        rw [hword] at h
        exact congrArg _ (Ended.andThen_congr (Ended.after_iff.mp h) ih (fun _ => ih))
      case h_2 => rfl
    | notExpr =>
      rw [parse] at h ⊢
      conv_rhs => rw [parse]
      split
      case h_1 afterNot hword =>
        rw [hword] at h
        exact congrArg _ (Ended.andThen_congr (Ended.after_iff.mp h) ih (fun _ _ => rfl))
      case h_2 hword =>
        rw [hword] at h
        exact congrArg _ (ih (Ended.after_iff.mp h))
    | atom =>
      rw [parse] at h ⊢
      conv_rhs => rw [parse]
      split
      case h_1 inner hopen =>
        rw [hopen] at h
        exact congrArg _ (Ended.andThen_congr (Ended.after_iff.mp h) ih (fun _ _ => rfl))
      case h_2 => rfl

theorem parse_of_le {m : ℕ} (h : Ended (parse n rule s)) (hle : n ≤ m) :
    parse m rule s = parse n rule s := by
  induction m, hle using Nat.le_induction with
  | base => rfl
  | succ m _ ih => rw [← ih] at h ⊢; exact parse_succ h

def Rule.rank : Rule eng → ℕ
  | .orExpr => 6
  | .andExpr => 5
  | .notExpr => 4
  | .atom => 3
  | .orLoop _ => 1
  | .andLoop _ => 1

theorem keyword_length (h : keyword word s = some rest) : rest.length < s.length := by
  obtain ⟨-, c, t, hdrop, -, rfl⟩ := keyword_eq_some h
  have hrest := (multispace0_suffix t).length_le
  have hlength := congrArg List.length hdrop
  rw [length_drop, length_cons] at hlength
  omega

theorem comparison_ended (s : List Char) : Ended (comparison s : Parsed eng) := by
  unfold comparison
  split
  case h_1 => exact Ended.of_ok rfl
  case h_2 => exact Ended.fail _
  case h_3 => exact Ended.fail _

theorem closeParen_ended (p : Expr eng × List Char) : Ended (closeParen p) := by
  unfold closeParen
  split
  case h_1 => exact Ended.of_ok rfl
  case h_2 => exact Ended.fail _

theorem parse_ended {n : ℕ} {rule : Rule eng} {s : List Char}
    (h : 6 * s.length + rule.rank ≤ n) : Ended (parse n rule s) := by
  induction n generalizing rule s with
  | zero => cases rule <;> simp [Rule.rank] at h
  | succ n ih =>
    cases rule with
    | orExpr =>
      simp only [Rule.rank] at h
      refine (ih (by simp only [Rule.rank]; omega)).andThen ?_
      intro a ha
      have hle := (parse_suffix ha).length_le
      exact ih (by simp only [Rule.rank]; omega)
    | orLoop result =>
      simp only [Rule.rank] at h
      rw [parse]
      split
      case h_1 afterOr hword =>
        have hlt := keyword_length hword
        have hstart := (trimStart_suffix s).length_le
        refine (Ended.andThen (ih (by simp only [Rule.rank]; omega)) ?_)
        intro a ha
        have hle := (parse_suffix ha).length_le
        exact ih (by simp only [Rule.rank]; omega)
      case h_2 => exact Ended.of_ok rfl
    | andExpr =>
      simp only [Rule.rank] at h
      have hspace := (multispace0_suffix s).length_le
      refine (Ended.andThen (ih (by simp only [Rule.rank]; omega)) ?_)
      intro a ha
      have hle := (parse_suffix ha).length_le
      exact ih (by simp only [Rule.rank]; omega)
    | andLoop result =>
      simp only [Rule.rank] at h
      rw [parse]
      split
      case h_1 afterAnd hword =>
        have hlt := keyword_length hword
        have hstart := (trimStart_suffix s).length_le
        refine (Ended.andThen (ih (by simp only [Rule.rank]; omega)) ?_)
        intro a ha
        have hle := (parse_suffix ha).length_le
        exact ih (by simp only [Rule.rank]; omega)
      case h_2 => exact Ended.of_ok rfl
    | notExpr =>
      simp only [Rule.rank] at h
      have hspace := (multispace0_suffix s).length_le
      rw [parse]
      split
      case h_1 afterNot hword =>
        have hlt := keyword_length hword
        exact (Ended.andThen (ih (by simp only [Rule.rank]; omega)) (fun a _ => Ended.of_ok rfl))
      case h_2 => exact ih (by simp only [Rule.rank]; omega)
    | atom =>
      simp only [Rule.rank] at h
      have hspace := (multispace0_suffix s).length_le
      rw [parse]
      split
      case h_1 inner hopen =>
        have hlength : inner.length < s.length := by
          rw [hopen, length_cons] at hspace
          omega
        exact (Ended.andThen (ih (by simp only [Rule.rank]; omega)) (fun a _ => closeParen_ended a))
      case h_2 => exact comparison_ended _

theorem parseOrExpr_ended (s : List Char) : Ended (parseOrExpr s : Parsed eng) :=
  @parse_ended eng (fuelFor s) .orExpr s le_rfl

end Sipnab.Dsl
