import Sipnab.Sip.FilterAppend

/-!
# Values that take what follows them

A bare value with a parenthesis of its own open takes a `)` written behind the expression it ends.
The group that `)` was meant to close then stays open.
-/

namespace Sipnab.Dsl

open Text

variable {eng : Engines}

def Detached (y : List Char) : Prop := y = [] ∨ ∃ c t, y = c :: t ∧ isWhitespace c = true

theorem follows_paren (y : List Char) : Follows (')' :: y) :=
  follows_append_paren (w := []) (fun _ hc => by cases hc) y

theorem valueText_bare {s text rest : List Char} {c : Char} {op : Operator}
    (hc : isQuote c = false) (h : valueText (c :: s) op = .ok (text, rest)) :
    scanBareValue (c :: s) (op == .regex) = (text, rest) := by
  rw [valueText, hc, if_neg Bool.false_ne_true] at h
  dsimp only at h
  split_ifs at h
  exact Except.ok.inj h

theorem scanBareValue_unclosed {s y : List Char} {regex : Bool} (hy : Detached y)
    (h : (scanBareValue (s ++ [')']) regex).2 = []) :
    (scanBareValue (s ++ ')' :: y) regex).2 = y := by
  obtain rfl | ⟨c, t, rfl, hc⟩ := hy
  · exact h
  · have hstop := Scanner.scan_append_stop h (bareStep_whitespace hc regex) t
    rw [List.append_assoc] at hstop
    exact congrArg Prod.snd hstop

theorem comparison_unclosed {s y rest : List Char} {e e' : Expr eng} (hy : Detached y)
    (h : (comparison s : Parsed eng).outcome = .ok (e, []))
    (hopen : endsUnclosed (comparison s : Parsed eng).log = true)
    (h' : (comparison (s ++ ')' :: y) : Parsed eng).outcome = .ok (e', rest)) : rest = y := by
  obtain ⟨field, op, valueAt, text, value, hhead, htext, -, -, hlog⟩ := comparison_eq_ok h
  obtain ⟨field', op', valueAt', text', value', hhead', htext', -⟩ := comparison_eq_ok h'
  rw [comparisonHead_append (follows_paren y) hhead (valueText_ne_nil htext)] at hhead'
  cases hhead'
  have hraw : consumed valueAt [] = valueAt := by simp [consumed]
  rw [hlog, hraw] at hopen
  cases valueAt with
  | nil => cases htext
  | cons c cs =>
    have hvalue : (!isQuote c && (scanBareValue (c :: cs ++ [')']) (op == .regex)).2.isEmpty) =
        true := hopen
    rw [Bool.and_eq_true, Bool.not_eq_true', List.isEmpty_iff] at hvalue
    have hscan : scanBareValue (c :: cs ++ ')' :: y) (op == .regex) = (text', rest) :=
      valueText_bare hvalue.1 htext'
    rw [← scanBareValue_unclosed hy hvalue.2, hscan]

/-- What is left behind an expression that ends in an unclosed value, when a `)` and more text is
put behind it: the loops go on through that text. -/
def Rule.leaves (y : List Char) : Rule eng → List Char
  | .notExpr => y
  | .atom => y
  | _ => []

theorem loop_nil {n : ℕ} {word : Rule eng} {result e : Expr eng} {rest : List Char}
    (hword : word = .orLoop result ∨ word = .andLoop result)
    (h : (parse n word []).outcome = .ok (e, rest)) : rest = [] := by
  cases n with
  | zero => exact absurd h not_ok_fail
  | succ n =>
    obtain rfl | rfl := hword
    · cases h
      rfl
    · cases h
      rfl

/-- A run and the loop behind it, of which the last to read anything ends in an unclosed value. -/
theorem andThen_unclosed {p p' : Parsed eng} {f g : Expr eng × List Char → Parsed eng}
    {e e' : Expr eng} {x rest : List Char} (h : (p.andThen f).outcome = .ok (e, []))
    (hopen : endsUnclosed (p.andThen f).log = true)
    (h' : (p'.andThen g).outcome = .ok (e', rest))
    (hcases : ∀ a e rest, (f a).outcome = .ok (e, rest) →
      (rest = a.2 ∧ (f a).log = []) ∨ (a.2 ≠ [] ∧ Settled a.2 ∧ (f a).log ≠ []))
    (hp : ∀ a, p.outcome = .ok a → Settled a.2 → a.2 ≠ [] → p'.outcome = .ok (a.1, a.2 ++ x))
    (hstop : ∀ a, p.outcome = .ok (a, []) → endsUnclosed p.log = true →
      ∀ b, p'.outcome = .ok b → (g b).outcome = .ok (e', rest) → rest = [])
    (hgo : ∀ a e, (f a).outcome = .ok (e, []) → endsUnclosed (f a).log = true →
      (g (a.1, a.2 ++ x)).outcome = .ok (e', rest) → rest = []) : rest = [] := by
  obtain ⟨a, ha, hend, hlog⟩ := Logged.exists_of_andThen h
  obtain ⟨b, hb, hend', -⟩ := Logged.exists_of_andThen h'
  rw [hlog] at hopen
  obtain ⟨hmid, hnil⟩ | ⟨hne, hsettled, hlast⟩ := hcases a e [] hend
  · rw [hnil, List.append_nil] at hopen
    obtain ⟨first, mid⟩ := a
    subst hmid
    exact hstop first ha hopen b hb hend'
  · rw [endsUnclosed_append hlast] at hopen
    rw [hp a ha hsettled hne] at hb
    cases hb
    exact hgo a e hend hopen hend'

theorem endsUnclosed_of_text {cs : List Char} {log : List (Event eng)}
    (h : endsUnclosed (.text cs :: log) = true) : endsUnclosed log = true := by
  cases log with
  | nil => cases h
  | cons ev log =>
    rw [← endsUnclosed_append (a := [.text cs]) (List.cons_ne_nil ev log)]
    exact h

theorem closeParen_endsUnclosed {p a : Expr eng × List Char} (h : (closeParen p).outcome = .ok a)
    (log : List (Event eng)) : endsUnclosed (log ++ (closeParen p).log) = false := by
  unfold closeParen at h ⊢
  split at h
  case h_1 => simp [endsUnclosed, Event.unclosed]
  case h_2 => cases h

theorem parse_unclosed {n : ℕ} {rule : Rule eng} {s y rest : List Char} {e e' : Expr eng}
    (hy : Detached y)
    (hloop : ∀ m result e rest, (parse m (.andLoop result) y : Parsed eng).outcome = .ok (e, rest) →
      rest = [])
    (h : (parse n rule s).outcome = .ok (e, []))
    (hopen : endsUnclosed (parse n rule s).log = true)
    (h' : (parse n rule (s ++ ')' :: y)).outcome = .ok (e', rest)) : rest = rule.leaves y := by
  have hx := follows_paren y
  induction n generalizing rule s e e' rest with
  | zero => exact absurd h not_ok_fail
  | succ n ih =>
    -- the run before a loop goes on as it did, when the loop finds its word
    have hgoes : ∀ rule s (a : Expr eng × List Char), (parse n rule s).outcome = .ok a →
        Settled a.2 → a.2 ≠ [] →
        (parse n rule (s ++ ')' :: y)).outcome = .ok (a.1, a.2 ++ ')' :: y) := by
      intro rule s a ha hsettled hne
      rw [parse_append hx ha hsettled (Or.inl hne)]
    cases rule with
    | orExpr =>
      refine andThen_unclosed h hopen h' (fun a e rest => orLoop_cases) (hgoes _ s) ?_ ?_
      · rintro a ha hlog ⟨first, mid⟩ hb hend
        obtain rfl : mid = [] := ih ha hlog hb
        exact loop_nil (Or.inl rfl) hend
      · exact fun a e hend hlog hend' => ih hend hlog hend'
    | orLoop result =>
      rw [parse] at h hopen h'
      split at h
      case h_1 afterOr hword =>
        rw [hword] at hopen
        have hne := ne_nil_of_andThen (parse_andExpr_nil n) h
        rw [keyword_trimStart_append hword hne] at h'
        refine andThen_unclosed h (endsUnclosed_of_text hopen) h' (fun a e rest => orLoop_cases)
          (hgoes _ afterOr) ?_ ?_
        · rintro a ha hlog ⟨first, mid⟩ hb hend
          obtain rfl : mid = [] := ih ha hlog hb
          exact loop_nil (Or.inl rfl) hend
        · exact fun a e hend hlog hend' => ih hend hlog hend'
      case h_2 hword =>
        rw [hword] at hopen
        cases hopen
    | andExpr =>
      rw [parse] at h hopen h'
      have hne := ne_nil_of_andThen (parse_notExpr_nil n) h
      rw [multispace0_append hne] at h'
      refine andThen_unclosed h (endsUnclosed_of_text hopen) h' (fun a e rest => andLoop_cases)
        (hgoes _ (multispace0 s)) ?_ ?_
      · rintro a ha hlog ⟨first, mid⟩ hb hend
        obtain rfl : mid = y := ih ha hlog hb
        exact hloop _ _ _ _ hend
      · exact fun a e hend hlog hend' => ih hend hlog hend'
    | andLoop result =>
      rw [parse] at h hopen h'
      split at h
      case h_1 afterAnd hword =>
        rw [hword] at hopen
        have hne := ne_nil_of_andThen (parse_notExpr_nil n) h
        rw [keyword_trimStart_append hword hne] at h'
        refine andThen_unclosed h (endsUnclosed_of_text hopen) h' (fun a e rest => andLoop_cases)
          (hgoes _ afterAnd) ?_ ?_
        · rintro a ha hlog ⟨first, mid⟩ hb hend
          obtain rfl : mid = y := ih ha hlog hb
          exact hloop _ _ _ _ hend
        · exact fun a e hend hlog hend' => ih hend hlog hend'
      case h_2 hword =>
        rw [hword] at hopen
        cases hopen
    | notExpr =>
      rw [parse] at h hopen h'
      have hne : multispace0 s ≠ [] := by
        intro hnil
        rw [hnil] at h
        exact parse_atom_nil n _ h
      rw [multispace0_append hne] at h'
      split at h
      case h_1 afterNot hword =>
        rw [hword] at hopen
        obtain ⟨⟨first, mid⟩, ha, hdone, hlog⟩ := Logged.exists_of_andThen h
        cases hdone
        have hafter : afterNot ≠ [] := by
          rintro rfl
          exact parse_atom_nil n _ ha
        have hatom := endsUnclosed_of_text hopen
        rw [hlog, Logged.log_done, List.append_nil] at hatom
        rw [keyword_append_some hword hafter] at h'
        obtain ⟨⟨first', mid'⟩, hb, hdone', -⟩ := Logged.exists_of_andThen h'
        cases hdone'
        have hleft := ih ha hatom hb
        exact hleft
      case h_2 hword =>
        rw [hword] at hopen
        have hnone : keyword "NOT".toList (multispace0 s ++ ')' :: y) = none := by
          obtain hnone | hnot :=
            keyword_append_none_or hx (List.all_iff_forall_prop.mp (by decide)) hword
          · exact hnone
          · exact absurd h (parse_atom_ident_ne_ok (isIdentChar_of_not hnot) n _)
        rw [hnone] at h'
        have hatom : (parse n .atom (multispace0 s)).outcome = .ok (e, []) := h
        have hleft := ih hatom (endsUnclosed_of_text hopen) h'
        exact hleft
    | atom =>
      rw [parse] at h hopen h'
      split at h
      case h_1 inner hparen =>
        rw [hparen] at hopen
        obtain ⟨a, ha, hclose, hlog⟩ := Logged.exists_of_andThen h
        have hclosed := closeParen_endsUnclosed hclose
          ([Event.text (consumed s ('(' :: inner)), Event.openGroup] ++ (parse n .orExpr inner).log)
        rw [List.append_assoc, ← hlog] at hclosed
        exact absurd hopen (by rw [Bool.not_eq_true]; exact hclosed)
      case h_2 hparen =>
        have hne : multispace0 s ≠ [] := by
          intro hnil
          rw [hnil] at h
          exact comparison_nil_ne_ok _ h
        have hlog : endsUnclosed (comparison (multispace0 s) : Parsed eng).log = true := by
          apply endsUnclosed_of_text
          split at hopen
          case h_1 inner heq => exact absurd heq (hparen inner)
          case h_2 => exact hopen
        rw [multispace0_append hne] at h'
        split at h'
        case h_1 inner heq =>
          cases hcons : multispace0 s with
          | nil => exact absurd hcons hne
          | cons c t =>
            rw [hcons] at heq
            exact absurd (by rw [hcons, (List.cons.inj heq).1]) (hparen t)
        case h_2 => exact comparison_unclosed hy h hlog h'

end Sipnab.Dsl
