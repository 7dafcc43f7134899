import Sipnab.Security.ExecPlaceholders

/-!
# The words of a rewritten hook

The rewriter reads a template by its quotes and backslashes. A rewritten template that the shell is
read in up to its last placeholder has the words of the template with the values as inert text
exactly if at each placeholder this reading and the shell's agree.
-/

namespace Sipnab

open List

open Shell (Quote Reader Item Piece Mark Env apostrophe isNameChar)

/-- The reference that the rewriter chooses is read as the value: the quotes are those of the shell
and neither a backslash nor a `$` stands before it. In a comment any reference will do. -/
def QuoteState.fits (s : QuoteState) (r : Reader) : Bool :=
  match r.mode with
  | .comment => true
  | .plain | .subOpen | .less => !s.escaped && s.quote = r.quote
  -- in single quotes a `$` is a character like others
  | .dollar => !s.escaped && s.quote = r.quote && r.quote = .single
  | _ => false

def Shell.Reader.reads (r : Reader) : Bool :=
  match r.mode with
  | .plain | .escaped | .dollar | .subOpen | .less | .comment => true
  | _ => false

/-- The shell's reading gets to every placeholder. -/
def Readable (r : Reader) : List TemplatePart → Prop
  | [] => True
  | .text c :: rest => Readable (r.step c).1 rest
  | .placeholder _ var :: rest => r.reads = true ∧ Readable (r.hold var).1 rest

/-- At every placeholder the reading by quotes alone fits that of the shell. -/
def Matched (s : QuoteState) (r : Reader) : List TemplatePart → Prop
  | [] => True
  | .text c :: rest => Matched (s.next (.text c)) (r.step c).1 rest
  | .placeholder name var :: rest =>
    s.fits r = true ∧ Matched (s.next (.placeholder name var)) (r.hold var).1 rest

namespace Shell.Reader

/-! ## Text that is not read -/

theorem readPart_comment {r : Reader} (hmode : r.mode = .comment) {cs : List Char}
    (hline : ∀ c ∈ cs, c ∉ ['\n', '\\', backquote]) : r.readPart cs = (r, []) := by
  induction cs with
  | nil => rfl
  | cons c cs ih =>
    have hc := hline c mem_cons_self
    simp only [mem_cons, not_mem_nil, or_false, not_or] at hc
    have hstep : r.step c = (r, []) := by
      rw [step_of_ne r hc.2, modeStep, hmode]
      exact if_neg hc.1
    rw [readPart, hstep]
    dsimp only
    rw [ih (fun d hd => hline d (mem_cons_of_mem c hd))]
    rfl

/-! ## A mode that the next character leaves -/

section Leaving

variable {r : Reader} {c : Char}

theorem step_pending (hmode : r.mode = .subOpen ∨ r.mode = .less)
    (hc : c ∈ ['%', '"', '$', apostrophe]) : r.step c = step { r with mode := .plain } c := by
  simp only [mem_cons, not_mem_nil, or_false] at hc
  rcases hmode with hmode | hmode <;> rcases hc with rfl | rfl | rfl | rfl <;>
    simp [step, modeStep, pendingStep, hmode, apostrophe, backquote]

theorem readPart_pending (cs : List Char) (hmode : r.mode = .subOpen ∨ r.mode = .less)
    (hc : c ∈ ['%', '"', '$', apostrophe]) :
    r.readPart (c :: cs) = readPart { r with mode := .plain } (c :: cs) := by
  rw [readPart, readPart, step_pending hmode hc]

theorem hold_pending (name : List Char) (hmode : r.mode = .subOpen ∨ r.mode = .less) :
    r.hold name = hold { r with mode := .plain } name := by
  rcases hmode with hmode | hmode <;> simp only [hold, hmode] <;> rfl

theorem readPart_dollar (cs : List Char) (hmode : r.mode = .dollar)
    (hc : c = '%' ∨ r.quote ≠ .none ∧ (c = '"' ∨ c = apostrophe)) :
    r.readPart (c :: cs) = ((readPart r.begun (c :: cs)).1,
      .mark (.dollar r.quoted) :: (readPart r.begun (c :: cs)).2) := by
  have hstep : r.step c = ((r.begun.step c).1, .mark (.dollar r.quoted) :: (r.begun.step c).2) := by
    rcases hc with rfl | ⟨hquote, rfl | rfl⟩
    · simp [step, modeStep, dollarStep, hmode, apostrophe, backquote, begun]
    · simp [step, modeStep, dollarStep, hmode, hquote, apostrophe, backquote, begun]
    · simp [step, modeStep, dollarStep, hmode, hquote, apostrophe, backquote, begun]
  rw [readPart, readPart, hstep]
  rfl

theorem hold_dollar (name : List Char) (hmode : r.mode = .dollar) :
    r.hold name = ((hold r.begun name).1,
      .mark (.dollar r.quoted) :: (hold r.begun name).2) := by
  simp [hold, hmode, begun]

end Leaving

end Shell.Reader

/-! ## A reference that fits -/

section Fits

variable {s : QuoteState} {r : Reader} {name var : List Char}

structure NamedPlaceholder (name var : List Char) : Prop where
  nameChars : ∀ c ∈ name, isNameChar c = true
  varChars : ∀ c ∈ var, isNameChar c = true
  nonempty : var ≠ []

theorem mem_rewritePart (h : NamedPlaceholder name var) {c : Char}
    (hc : c ∈ rewritePart s (.placeholder name var)) :
    isNameChar c = true ∨ c ∈ ['%', '"', '$', '\x7b', '\x7d', apostrophe] := by
  obtain ⟨quote, escaped⟩ := s
  cases escaped with
  | true =>
    rcases mem_cons.mp hc with rfl | hc
    · exact .inr (by decide)
    · exact .inl (h.nameChars c hc)
  | false =>
    by_cases hvar : c ∈ var
    · exact .inl (h.varChars c hvar)
    · refine .inr ?_
      cases quote <;>
        simp only [rewritePart, quotedReference, Reader.reference, mem_cons, mem_append,
          not_mem_nil, hvar, Bool.false_eq_true, if_false, or_false, false_or] at hc ⊢ <;>
        tauto

theorem not_mem_rewritePart (h : NamedPlaceholder name var) :
    ∀ c ∈ rewritePart s (.placeholder name var), c ∉ ['\n', '\\', Shell.backquote] := by
  intro c hc hnot
  simp only [mem_cons, not_mem_nil, or_false] at hnot
  rcases mem_rewritePart h hc with hname | hmark
  · rcases hnot with rfl | rfl | rfl <;> exact absurd hname (by decide)
  · rcases hnot with rfl | rfl | rfl <;> exact absurd hmark (by decide)

/-- What the rewriter writes for a placeholder begins with this character. -/
def QuoteState.firstChar (s : QuoteState) : Char :=
  if s.escaped then '%'
  else match s.quote with
    | .none => '"'
    | .single => apostrophe
    | .double => '$'

theorem rewritePart_eq_cons (s : QuoteState) (name var : List Char) :
    s.firstChar ∈ ['%', '"', '$', apostrophe] ∧
      ∃ cs, rewritePart s (.placeholder name var) = s.firstChar :: cs := by
  obtain ⟨quote, escaped⟩ := s
  cases escaped with
  | true => exact ⟨mem_cons_self, name, rfl⟩
  | false =>
    cases quote with
    | none => exact ⟨by decide, _, rfl⟩
    | single => exact ⟨by decide, _, rfl⟩
    | double => exact ⟨by decide, _, rfl⟩

theorem readPart_quotedReference (h : NamedPlaceholder name var) (hmode : r.mode = .plain) :
    r.readPart (quotedReference r.quote var) = r.hold var := by
  obtain ⟨quote, parens, outer, mode, inWord, spelt⟩ := r
  obtain rfl : mode = .plain := hmode
  have hdouble := Reader.readPart_reference ⟨.double, parens, outer, .plain, true, []⟩ rfl (by simp)
    h.nonempty h.varChars
  cases quote with
  | none =>
    have hopen : Reader.step ⟨.none, parens, outer, .plain, inWord, spelt⟩ '"' =
      (⟨.double, parens, outer, .plain, true, []⟩, if inWord then [] else [.mark .quote]) := rfl
    rw [quotedReference, Reader.readPart, hopen]
    dsimp only
    rw [Reader.readPart_append, hdouble]
    cases inWord <;> rfl
  | single =>
    have hopen : Reader.readPart ⟨.single, parens, outer, .plain, inWord, spelt⟩ [apostrophe, '"'] =
      (⟨.double, parens, outer, .plain, true, []⟩, []) := rfl
    change Reader.readPart _ ([apostrophe, '"'] ++ (Reader.reference var ++ ['"', apostrophe])) = _
    rw [Reader.readPart_append, hopen]
    dsimp only
    rw [Reader.readPart_append, hdouble]
    rfl
  | double =>
    rw [quotedReference, Reader.readPart_reference ⟨.double, parens, outer, .plain, inWord, spelt⟩
      rfl (by simp) h.nonempty h.varChars]
    rfl

theorem readPart_of_fits (h : NamedPlaceholder name var) (hfits : s.fits r = true) :
    r.readPart (rewritePart s (.placeholder name var)) = r.hold var := by
  obtain ⟨hc, cs, htext⟩ := rewritePart_eq_cons s name var
  have pending (hmode : r.mode = .subOpen ∨ r.mode = .less) :
      r.readPart (rewritePart s (.placeholder name var)) = r.hold var := by
    have hfits' : s.escaped = false ∧ s.quote = r.quote := by
      rcases hmode with hmode | hmode <;> simpa [QuoteState.fits, hmode] using hfits
    have hplain := readPart_quotedReference h (r := { r with mode := .plain }) rfl
    rw [htext, Reader.readPart_pending cs hmode hc, ← htext, Reader.hold_pending var hmode,
      rewritePart, hfits'.1, hfits'.2, if_neg Bool.false_ne_true, hplain]
  cases hmode : r.mode with
  | comment =>
    rw [Reader.readPart_comment hmode (not_mem_rewritePart h)]
    simp only [Reader.hold, hmode]
  | escaped | operator | arithEnd | outside => simp [QuoteState.fits, hmode] at hfits
  | braced acc => simp [QuoteState.fits, hmode] at hfits
  | arith depth dollar => simp [QuoteState.fits, hmode] at hfits
  | plain =>
    simp only [QuoteState.fits, hmode, Bool.and_eq_true, Bool.not_eq_true', decide_eq_true_eq]
      at hfits
    rw [rewritePart, hfits.1, hfits.2, if_neg Bool.false_ne_true]
    exact readPart_quotedReference h hmode
  | subOpen => exact pending (.inl hmode)
  | less => exact pending (.inr hmode)
  | dollar =>
    simp only [QuoteState.fits, hmode, Bool.and_eq_true, Bool.not_eq_true', decide_eq_true_eq]
      at hfits
    obtain ⟨⟨hescaped, hquote⟩, hsingle⟩ := hfits
    have hfirst : s.firstChar = apostrophe := by
      rw [QuoteState.firstChar, hescaped, hquote, hsingle]
      rfl
    have hplain := readPart_quotedReference h (r := r.begun) rfl
    rw [htext, Reader.readPart_dollar cs hmode (.inr ⟨by simp [hsingle], .inr hfirst⟩), ← htext,
      Reader.hold_dollar var hmode, rewritePart, hescaped, hquote, if_neg Bool.false_ne_true]
    exact congrArg₂ Prod.mk (congrArg Prod.fst hplain) (congrArg _ (congrArg Prod.snd hplain))

/-! ## A reference that does not fit -/

def Diverge {α : Type} (as bs : List α) : Prop := ∀ us vs, as ++ us ≠ bs ++ vs

theorem Diverge.of_ne {α : Type} {a b : α} (h : a ≠ b) (as bs : List α) :
    Diverge (a :: as) (b :: bs) := by
  intro us vs heq
  exact h (List.cons.inj heq).1

theorem Diverge.cons {α : Type} {as bs : List α} (a : α) (h : Diverge as bs) :
    Diverge (a :: as) (a :: bs) := by
  intro us vs heq
  exact h us vs (List.cons.inj heq).2

def starEnv : Env := fun _ => ['*']

def starMarks (pieces : List Piece) : List Mark := pieces.flatMap (Piece.expand starEnv)

theorem starMarks_readPart_cons (r : Reader) (c : Char) (cs : List Char) :
    starMarks (r.readPart (c :: cs)).2 =
      starMarks (r.step c).2 ++ starMarks ((r.step c).1.readPart cs).2 :=
  flatMap_append

theorem starMarks_hold {r : Reader} (hmode : r.mode = .plain) (var : List Char) :
    starMarks (r.hold var).2 =
      (if r.quote = .none ∧ r.inWord = false then [Mark.quote] else []) ++ [Mark.inert '*'] := by
  simp only [Reader.hold, hmode]
  split <;> rfl

/-- What the rewriter writes for a placeholder is not the value, whatever is behind it. -/
def Mistaken (s : QuoteState) (r : Reader) (name var : List Char) : Prop :=
  Diverge (starMarks (r.readPart (rewritePart s (.placeholder name var))).2)
    (starMarks (r.hold var).2)

theorem diverge_plain (h : NamedPlaceholder name var) (hmode : r.mode = .plain)
    (hfits : ¬(s.escaped = false ∧ s.quote = r.quote)) :
    Mistaken s r name var := by
  rw [Mistaken, starMarks_hold hmode]
  obtain ⟨quote, parens, outer, mode, inWord, spelt⟩ := r
  obtain rfl : mode = .plain := hmode
  obtain ⟨written, escaped⟩ := s
  have hbare := Reader.readPart_reference ⟨.none, parens, outer, .plain, true, []⟩ rfl (by simp)
    h.nonempty h.varChars
  cases escaped with
  | true =>
    change Diverge (starMarks (Reader.readPart _ ('%' :: name)).2) _
    rw [starMarks_readPart_cons]
    cases quote with
    | none =>
      cases inWord with
      | true => exact .of_ne (by simp) _ _
      | false => exact .of_ne (by simp) _ _
    | single => exact .of_ne (by simp) _ _
    | double => exact .of_ne (by simp) _ _
  | false =>
    change Diverge (starMarks (Reader.readPart _ (quotedReference written var)).2) _
    cases written with
    | none =>
      rw [quotedReference, starMarks_readPart_cons]
      cases quote with
      | none => exact absurd ⟨rfl, rfl⟩ hfits
      | single => exact .of_ne (by simp) _ _
      | double =>
        have hclose : Reader.step ⟨.double, parens, outer, .plain, inWord, spelt⟩ '"' =
          (⟨.none, parens, outer, .plain, true, []⟩, []) := rfl
        rw [hclose]
        dsimp only
        rw [Reader.readPart_append, hbare]
        exact .of_ne (by decide) _ _
    | single =>
      rw [quotedReference, starMarks_readPart_cons]
      cases quote with
      | none =>
        have hopen : Reader.step ⟨.none, parens, outer, .plain, inWord, spelt⟩ apostrophe =
          (⟨.single, parens, outer, .plain, true, []⟩, if inWord then [] else [.mark .quote]) := rfl
        rw [hopen]
        dsimp only
        rw [starMarks_readPart_cons]
        cases inWord with
        | true => exact .of_ne (by simp) _ _
        | false => exact .cons _ (.of_ne (by simp) _ _)
      | single => exact absurd ⟨rfl, rfl⟩ hfits
      | double => exact .of_ne (by simp [apostrophe]) _ _
    | double =>
      cases quote with
      | none =>
        rw [quotedReference, Reader.readPart_reference ⟨.none, parens, outer, .plain, inWord, spelt⟩
          rfl (by simp) h.nonempty h.varChars]
        cases inWord with
        | true => exact .of_ne (by decide) _ _
        | false => exact .of_ne (by decide) _ _
      | single =>
        rw [quotedReference, Reader.reference, starMarks_readPart_cons]
        exact .of_ne (by simp) _ _
      | double => exact absurd ⟨rfl, rfl⟩ hfits

theorem diverge_escaped (hmode : r.mode = .escaped) :
    Mistaken s r name var := by
  obtain ⟨hc, cs, htext⟩ := rewritePart_eq_cons s name var
  obtain ⟨quote, parens, outer, mode, inWord, spelt⟩ := r
  obtain rfl : mode = .escaped := hmode
  rw [Mistaken, htext]
  generalize s.firstChar = c at hc
  simp only [mem_cons, not_mem_nil, or_false] at hc
  have hstep : Reader.step ⟨quote, parens, outer, .escaped, inWord, spelt⟩ c =
      Reader.escapedStep ⟨quote, parens, outer, .escaped, inWord, spelt⟩ c := by
    rcases hc with rfl | rfl | rfl | rfl <;> rfl
  rw [starMarks_readPart_cons, hstep]
  cases quote with
  | none =>
    cases inWord with
    | true => rcases hc with rfl | rfl | rfl | rfl <;> exact .of_ne (by simp [apostrophe]) _ _
    | false => rcases hc with rfl | rfl | rfl | rfl <;> exact .of_ne (by simp) _ _
  | single => rcases hc with rfl | rfl | rfl | rfl <;> exact .of_ne (by simp [apostrophe]) _ _
  | double =>
    rcases hc with rfl | rfl | rfl | rfl
    · exact .cons _ (.of_ne (by simp) _ _)
    · exact .of_ne (by simp) _ _
    · exact .of_ne (by simp) _ _
    · exact .cons _ (.of_ne (by simp [apostrophe]) _ _)

/-- Behind a `$` that the next character does not go on from. -/
theorem diverge_dollar (h : NamedPlaceholder name var) (hmode : r.mode = .dollar)
    (hfits : ¬(s.escaped = false ∧ s.quote = r.quote))
    (hc : s.firstChar = '%' ∨ r.quote ≠ .none ∧ (s.firstChar = '"' ∨ s.firstChar = apostrophe)) :
    Mistaken s r name var := by
  obtain ⟨-, cs, htext⟩ := rewritePart_eq_cons s name var
  rw [Mistaken, htext, Reader.readPart_dollar cs hmode hc, ← htext, Reader.hold_dollar var hmode]
  exact .cons _ (diverge_plain h rfl hfits)

theorem diverge_of_not_fits (h : NamedPlaceholder name var) (hreads : r.reads = true)
    (hfits : s.fits r = false) :
    Mistaken s r name var := by
  obtain ⟨hc, cs, htext⟩ := rewritePart_eq_cons s name var
  have pending (hmode : r.mode = .subOpen ∨ r.mode = .less) :
      Mistaken s r name var := by
    have hfits' : ¬(s.escaped = false ∧ s.quote = r.quote) := by
      rcases hmode with hmode | hmode <;> simpa [QuoteState.fits, hmode] using hfits
    rw [Mistaken, htext, Reader.readPart_pending cs hmode hc, ← htext,
      Reader.hold_pending var hmode]
    exact diverge_plain h rfl hfits'
  cases hmode : r.mode with
  | comment => simp [QuoteState.fits, hmode] at hfits
  | operator | arithEnd | outside => simp [Reader.reads, hmode] at hreads
  | braced acc => simp [Reader.reads, hmode] at hreads
  | arith depth dollar => simp [Reader.reads, hmode] at hreads
  | escaped => exact diverge_escaped hmode
  | plain => exact diverge_plain h hmode (by simpa [QuoteState.fits, hmode] using hfits)
  | subOpen => exact pending (.inl hmode)
  | less => exact pending (.inr hmode)
  | dollar =>
    cases hescaped : s.escaped with
    | true =>
      refine diverge_dollar h hmode (by simp [hescaped]) (.inl ?_)
      rw [QuoteState.firstChar, hescaped, if_pos rfl]
    | false =>
      simp only [QuoteState.fits, hmode, hescaped, Bool.not_false, Bool.true_and,
        Bool.and_eq_false_iff, decide_eq_false_iff_not] at hfits
      by_cases hdouble : s.quote = .double
      · -- the two dollars name the process
        rw [Mistaken, htext, starMarks_readPart_cons, QuoteState.firstChar, hescaped, hdouble]
        obtain ⟨quote, parens, outer, mode, inWord, spelt⟩ := r
        obtain rfl : mode = .dollar := hmode
        exact .of_ne (by simp) _ _
      have hfirst : s.firstChar = '"' ∨ s.firstChar = apostrophe := by
        rw [QuoteState.firstChar, hescaped, if_neg Bool.false_ne_true]
        cases hwritten : s.quote with
        | none => exact .inl rfl
        | single => exact .inr rfl
        | double => exact absurd hwritten hdouble
      by_cases hbare : r.quote = .none
      · rw [Mistaken, htext, starMarks_readPart_cons]
        obtain ⟨quote, parens, outer, mode, inWord, spelt⟩ := r
        obtain rfl : mode = .dollar := hmode
        obtain rfl : quote = .none := hbare
        rcases hfirst with hfirst | hfirst <;> rw [hfirst] <;> exact .of_ne (by simp) _ _
      · refine diverge_dollar h hmode ?_ (.inr ⟨hbare, hfirst⟩)
        rintro ⟨-, hquote⟩
        cases hread : r.quote with
        | none => exact hbare hread
        | single => exact hfits.elim (fun hne => hne hquote) (fun hne => hne hread)
        | double => exact hdouble (hquote.trans hread)

end Fits

/-! ## Whole templates -/

section Whole

theorem named_of_mem_templateParts (table : PlaceholderTable) {text name var : List Char}
    (h : .placeholder name var ∈ templateParts table.entries text) : NamedPlaceholder name var := by
  fun_induction templateParts table.entries text with
  | case1 => exact absurd h not_mem_nil
  | case2 c rest found var' hat ih =>
    rcases mem_cons.mp h with heq | h
    · obtain ⟨rfl, rfl⟩ := TemplatePart.placeholder.inj heq
      unfold placeholderFrom at hat
      split at hat
      · obtain ⟨e, he, rfl, rfl, -⟩ := placeholderAt_eq_some hat
        obtain ⟨hname, hnonempty, hvar⟩ := table.named e he
        exact ⟨List.all_eq_true.mp hname, List.all_eq_true.mp hvar, hnonempty⟩
      · exact absurd hat (by simp)
    · exact ih h
  | case3 c rest hat ih =>
    rcases mem_cons.mp h with heq | h
    · exact absurd heq (by simp)
    · exact ih h

variable {parts : List TemplatePart} {s : QuoteState} {r : Reader}

section

variable (hnamed : ∀ name var, .placeholder name var ∈ parts → NamedPlaceholder name var)
include hnamed

theorem read_of_matched (h : Matched s r parts) :
    r.readText (rewriteParts s parts) = r.read (parts.map TemplatePart.item) := by
  induction parts generalizing s r with
  | nil => rfl
  | cons part rest ih =>
    have hrest := fun name var hmem => hnamed name var (mem_cons_of_mem part hmem)
    cases part with
    | text c =>
      change (r.step c).2 ++ (r.step c).1.readText (rewriteParts _ rest) = _
      rw [ih hrest h]
      rfl
    | placeholder name var =>
      obtain ⟨hfits, hmatched⟩ := h
      rw [rewriteParts, Reader.readText_append,
        readPart_of_fits (hnamed name var mem_cons_self) hfits, ih hrest hmatched]
      rfl

theorem matched_of_read (hreadable : Readable r parts)
    (h : starMarks (r.readText (rewriteParts s parts)) =
      starMarks (r.read (parts.map TemplatePart.item))) :
    Matched s r parts := by
  induction parts generalizing s r with
  | nil => trivial
  | cons part rest ih =>
    have hrest := fun name var hmem => hnamed name var (mem_cons_of_mem part hmem)
    cases part with
    | text c =>
      refine ih hrest hreadable ?_
      change starMarks ((r.step c).2 ++ (r.step c).1.readText (rewriteParts _ rest)) =
        starMarks ((r.step c).2 ++ (r.step c).1.read _) at h
      rw [starMarks, starMarks, flatMap_append, flatMap_append] at h
      exact append_cancel_left h
    | placeholder name var =>
      have hname := hnamed name var mem_cons_self
      change starMarks (r.readText (rewritePart s (.placeholder name var) ++
          rewriteParts (s.next (.placeholder name var)) rest)) =
        starMarks ((r.hold var).2 ++ (r.hold var).1.read _) at h
      rw [Reader.readText_append, starMarks, starMarks, flatMap_append, flatMap_append] at h
      cases hfits : s.fits r with
      | false => exact absurd h (diverge_of_not_fits hname hreadable.1 hfits _ _)
      | true =>
        refine ⟨hfits, ih hrest hreadable.2 ?_⟩
        rw [readPart_of_fits hname hfits] at h
        exact append_cancel_left h

end

end Whole

theorem reads_of_fits {s : QuoteState} {r : Reader} (h : s.fits r = true) : r.reads = true := by
  cases hmode : r.mode <;> simp_all [QuoteState.fits, Reader.reads]

theorem readable_of_matched {s : QuoteState} {r : Reader} {parts : List TemplatePart}
    (h : Matched s r parts) : Readable r parts := by
  induction parts generalizing s r with
  | nil => trivial
  | cons part rest ih =>
    cases part with
    | text c => exact @ih _ (r.step c).1 h
    | placeholder name var => exact ⟨reads_of_fits h.1, ih h.2⟩

/-- The hook of an alert template has the words of the template, each placeholder one value. -/
def InertInAlert (template : String) : Prop :=
  ∀ env, Shell.textWords env (migrateAlertTemplate template).toList =
    Shell.words env ((templateParts alertPlaceholders template.toList).map TemplatePart.item)

end Sipnab
