import Sipnab.Lib.ShellWords

/-!
# Placeholders in hook templates

A hook runs the operator's template through `sh -c` and passes captured data in environment
variables. An older template names that data by placeholders, which are rewritten to references that
are meant to expand as one word.
-/

namespace Sipnab

open List

open Shell (Quote Reader Item apostrophe isNameChar)

/-! ## The rewriter -/

/-- The first name of the table that the text begins with, and its variable. -/
def placeholderAt (table : List (String × String)) (text : List Char) :
    Option (List Char × List Char) :=
  (table.find? (fun e => e.1.toList.isPrefixOf text)).map (fun e => (e.1.toList, e.2.toList))

def placeholderFrom (table : List (String × String)) (c : Char) (rest : List Char) :
    Option (List Char × List Char) :=
  if c = '%' then placeholderAt table rest else none

/-- The reference for a placeholder, by the quotes around it. -/
def quotedReference (quote : Quote) (var : List Char) : List Char :=
  match quote with
  | .none => '"' :: (Reader.reference var ++ ['"'])
  | .double => Reader.reference var
  | .single => apostrophe :: '"' :: (Reader.reference var ++ ['"', apostrophe])

def nextQuote (quote : Quote) (c : Char) : Quote :=
  match quote with
  | .none => if c = apostrophe then .single else if c = '"' then .double else .none
  | .single => if c = apostrophe then .none else .single
  | .double => if c = '"' then .none else .double

def quoteLoop (table : List (String × String)) (quote : Quote) (text : List Char) : List Char :=
  match text with
  | [] => []
  | c :: rest =>
    match placeholderFrom table c rest with
    | some (name, var) =>
      quotedReference quote var ++ quoteLoop table quote (rest.drop name.length)
    | none =>
      -- an escaped quote does not open or close a quoted span
      if c = '\\' ∧ quote ≠ .single then
        c :: (rest.take 1 ++ quoteLoop table quote (rest.drop 1))
      else c :: quoteLoop table (nextQuote quote c) rest
termination_by text.length

def quotePlaceholders (template : String) (table : List (String × String)) : String :=
  String.ofList (quoteLoop table .none template.toList)

def alertPlaceholders : List (String × String) :=
  [("src", "SIPNAB_SRC"), ("rule", "SIPNAB_RULE"), ("detail", "SIPNAB_DETAIL")]

def legacyPlaceholders : List (String × String) :=
  [("stream_json", "SIPNAB_STREAM_JSON"), ("call_id", "SIPNAB_CALL_ID"),
    ("method", "SIPNAB_METHOD"), ("detail", "SIPNAB_DETAIL"), ("jitter", "SIPNAB_JITTER"),
    ("state", "SIPNAB_STATE"), ("json", "SIPNAB_JSON"), ("from", "SIPNAB_FROM"),
    ("ssrc", "SIPNAB_SSRC"), ("loss", "SIPNAB_LOSS"), ("rule", "SIPNAB_RULE"),
    ("mos", "SIPNAB_MOS"), ("src", "SIPNAB_SRC"), ("to", "SIPNAB_TO")]

def migrateAlertTemplate (template : String) : String :=
  quotePlaceholders template alertPlaceholders

def migrateTemplateVars (template : String) : String :=
  quotePlaceholders template legacyPlaceholders

/-- The environment that `run_alert_exec` starts the command in, as far as it sets it. -/
def alertEnv (srcIp alertType detail : List Char) (inherited : Shell.Env) : Shell.Env := fun name =>
  if name = "SIPNAB_DETAIL".toList then detail
  else if name = "SIPNAB_RULE".toList then alertType
  else if name = "SIPNAB_SRC".toList then srcIp
  else inherited name

/-- Names and variables of a table are made of the characters of shell names. -/
structure PlaceholderTable where
  entries : List (String × String)
  named : ∀ e ∈ entries, e.1.toList.all isNameChar = true ∧ e.2.toList ≠ [] ∧
    e.2.toList.all isNameChar = true

def PlaceholderTable.alert : PlaceholderTable := ⟨alertPlaceholders, by decide⟩

def PlaceholderTable.legacy : PlaceholderTable := ⟨legacyPlaceholders, by decide⟩

/-! ## What a template stands for -/

inductive TemplatePart
  | text (c : Char)
  | placeholder (name var : List Char)
  deriving DecidableEq

/-- The text of a template with its placeholders, wherever they stand. -/
def templateParts (table : List (String × String)) (text : List Char) : List TemplatePart :=
  match text with
  | [] => []
  | c :: rest =>
    match placeholderFrom table c rest with
    | some (name, var) => .placeholder name var :: templateParts table (rest.drop name.length)
    | none => .text c :: templateParts table rest
termination_by text.length

def TemplatePart.item : TemplatePart → Item
  | .text c => .char c
  | .placeholder _ var => .value var

structure QuoteState where
  quote : Quote
  escaped : Bool
  deriving DecidableEq

namespace QuoteState

def start : QuoteState := ⟨.none, false⟩

def next (s : QuoteState) : TemplatePart → QuoteState
  | .text c =>
    if s.escaped then { s with escaped := false }
    else if c = '\\' ∧ s.quote ≠ .single then { s with escaped := true }
    else { s with quote := nextQuote s.quote c }
  | .placeholder _ _ => { s with escaped := false }

end QuoteState

/-! ## The rewriter, part by part -/

/-- What the rewriter makes of a part: behind a backslash a placeholder stays text. -/
def rewritePart (s : QuoteState) : TemplatePart → List Char
  | .text c => [c]
  | .placeholder name var => if s.escaped then '%' :: name else quotedReference s.quote var

def rewriteParts (s : QuoteState) : List TemplatePart → List Char
  | [] => []
  | part :: rest => rewritePart s part ++ rewriteParts (s.next part) rest

section Loop

variable {table : List (String × String)}

theorem placeholderAt_eq_some {text name var : List Char}
    (h : placeholderAt table text = some (name, var)) :
    ∃ e ∈ table, e.1.toList = name ∧ e.2.toList = var ∧ text = name ++ text.drop name.length := by
  obtain ⟨e, hfind, he⟩ := Option.map_eq_some_iff.mp h
  obtain ⟨hname, hvar⟩ := Prod.mk.inj he
  have hprefix : e.1.toList <+: text :=
    isPrefixOf_iff_prefix.mp (by simpa using List.find?_some hfind)
  refine ⟨e, mem_of_find?_eq_some hfind, hname, hvar, ?_⟩
  rw [← hname]
  exact (prefix_iff_eq_append.mp hprefix).symm

theorem placeholderFrom_of_ne {c : Char} (h : c ≠ '%') (rest : List Char) :
    placeholderFrom table c rest = none := if_neg h

theorem templateParts_of_none {c : Char} {rest : List Char}
    (h : placeholderFrom table c rest = none) :
    templateParts table (c :: rest) = .text c :: templateParts table rest := by
  rw [templateParts, h]

theorem templateParts_of_some {c : Char} {rest name var : List Char}
    (h : placeholderFrom table c rest = some (name, var)) :
    templateParts table (c :: rest) =
      .placeholder name var :: templateParts table (rest.drop name.length) := by
  rw [templateParts, h]

theorem nextQuote_of_name {c : Char} (h : isNameChar c = true) (quote : Quote) :
    nextQuote quote c = quote ∧ c ≠ '%' ∧ c ≠ '\\' := by
  have happ : c ≠ apostrophe := by
    rintro rfl
    exact absurd h (by decide)
  have hquot : c ≠ '"' := by
    rintro rfl
    exact absurd h (by decide)
  refine ⟨?_, ?_, ?_⟩
  · cases quote <;> simp [nextQuote, happ, hquot]
  · rintro rfl
    exact absurd h (by decide)
  · rintro rfl
    exact absurd h (by decide)

theorem rewrite_name (quote : Quote) {name : List Char} (rest : List Char)
    (h : ∀ c ∈ name, isNameChar c = true) :
    rewriteParts ⟨quote, false⟩ (templateParts table (name ++ rest)) =
      name ++ rewriteParts ⟨quote, false⟩ (templateParts table rest) := by
  induction name with
  | nil => rfl
  | cons c name ih =>
    obtain ⟨hquote, hpercent, hslash⟩ := nextQuote_of_name (h c mem_cons_self) quote
    rw [cons_append, templateParts_of_none (placeholderFrom_of_ne hpercent _), rewriteParts]
    simp only [QuoteState.next, hslash, hquote, false_and, if_false, Bool.false_eq_true,
      rewritePart, ih (fun d hd => h d (mem_cons_of_mem c hd)), cons_append,
      nil_append]

theorem rewrite_escaped (hnamed : ∀ e ∈ table, e.1.toList.all isNameChar = true) (quote : Quote)
    (rest : List Char) :
    rewriteParts ⟨quote, true⟩ (templateParts table rest) =
      rest.take 1 ++ rewriteParts ⟨quote, false⟩ (templateParts table (rest.drop 1)) := by
  cases rest with
  | nil => simp [templateParts, rewriteParts]
  | cons d rest =>
    simp only [take_succ_cons, take_zero, drop_succ_cons, drop_zero]
    cases hnext : placeholderFrom table d rest with
    | none =>
      rw [templateParts_of_none hnext, rewriteParts]
      rfl
    | some found =>
      obtain ⟨name, var⟩ := found
      have hd : d = '%' := by
        by_contra hd
        rw [placeholderFrom_of_ne hd] at hnext
        exact Option.some_ne_none _ hnext.symm
      rw [templateParts_of_some hnext, rewriteParts]
      rw [placeholderFrom, if_pos hd] at hnext
      obtain ⟨e, he, hname, -, hsplit⟩ := placeholderAt_eq_some hnext
      have hchars : ∀ c ∈ name, isNameChar c = true := by
        rw [← hname]
        exact List.all_eq_true.mp (hnamed e he)
      have hwhole : rewriteParts ⟨quote, false⟩ (templateParts table rest) =
          name ++ rewriteParts ⟨quote, false⟩ (templateParts table (rest.drop name.length)) := by
        conv_lhs => rw [hsplit]
        exact rewrite_name quote _ hchars
      rw [hwhole, hd]
      rfl

theorem quoteLoop_eq (hnamed : ∀ e ∈ table, e.1.toList.all isNameChar = true) (quote : Quote)
    (text : List Char) :
    quoteLoop table quote text = rewriteParts ⟨quote, false⟩ (templateParts table text) := by
  fun_induction quoteLoop table quote text with
  | case1 => rw [templateParts, rewriteParts]
  | case2 quote c rest name var hat ih =>
    rw [templateParts_of_some hat, rewriteParts, ih]
    rfl
  | case3 quote c rest hat hslash ih =>
    rw [templateParts_of_none hat, rewriteParts, ih, ← rewrite_escaped hnamed]
    simp [QuoteState.next, rewritePart, hslash]
  | case4 quote c rest hat hslash ih =>
    rw [templateParts_of_none hat, rewriteParts, ih]
    simp [QuoteState.next, rewritePart, hslash]

end Loop

end Sipnab
