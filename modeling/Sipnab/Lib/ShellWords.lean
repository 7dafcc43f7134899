import Mathlib

/-!
# Reading a shell script

How `sh` reads the characters of a script: quotes, backslashes, comments, parameters in braces and
command substitutions. The value of a variable may stand in the script as inert text. Arithmetic and
expansions with an operator are passed over as they are written. The reading ends at a quote or a
command in one of these, a here-document, a `case` in a command substitution, whose patterns have
parentheses of their own, and a backslash inside backquotes; what is behind is kept unread.
-/

namespace Sipnab.Shell

open List

inductive Quote
  | none | single | double
  deriving DecidableEq

inductive Mode
  | plain | escaped | dollar | braced (name : List Char) | operator | subOpen
  | arith (depth : ℕ) (dollar : Bool) | arithEnd | less | comment | outside
  deriving DecidableEq

/-- What a script consists of when its variables are expanded. An inert character stands for itself;
an expanded one came out of a variable outside of quotes and splits the word or is matched against
file names. -/
inductive Mark
  | bare (c : Char)
  | inert (c : Char)
  | expanded (c : Char)
  | unread (c : Char)
  | dollar (quoted : Bool)
  | pid (quoted : Bool)
  | quote
  | openSub (quoted : Bool)
  | closeSub
  deriving DecidableEq

inductive Piece
  | mark (m : Mark)
  | param (name : List Char) (quoted : Bool)
  deriving DecidableEq

abbrev Env := List Char → List Char

/-- Characters that a variable outside of quotes does not pass on as they are. -/
def splitsOrGlobs (c : Char) : Bool := [' ', '\t', '\n', '*', '?', '[', '\\'].contains c

def Piece.expand (env : Env) : Piece → List Mark
  | .mark m => [m]
  | .param name true => (env name).map .inert
  | .param name false =>
    (env name).map (fun c => if splitsOrGlobs c then .expanded c else .inert c)

def apostrophe : Char := '\x27'

def backquote : Char := '\x60'

def isNameChar (c : Char) : Bool := c.isAlphanum || c = '_'

def isSeparator (c : Char) : Bool := [' ', '\t', '\n', ';', '&', '|', '>'].contains c

/-- The quotes and open parentheses around a command substitution, and whether a backquote opened
it. -/
structure Frame where
  quote : Quote
  parens : ℕ
  backquoted : Bool
  deriving DecidableEq

/-- The state of the reading: the quotes and open parentheses of the current script, those around
each command substitution that it stands in, whether a word has begun, and the characters of the
word behind the last that was quoted or expanded. -/
structure Reader where
  quote : Quote
  parens : ℕ
  outer : List Frame
  mode : Mode
  inWord : Bool
  spelt : List Char
  deriving DecidableEq

namespace Reader

def start : Reader := ⟨.none, 0, [], .plain, false, []⟩

variable (r : Reader)

def quoted : Bool := r.quote = .double

def backquoted : Bool := r.outer.any Frame.backquoted

/-- A word with something in it that was quoted or expanded. -/
def begun : Reader := { r with mode := .plain, inWord := true, spelt := [] }

/-- Between words. -/
def between : Reader := { r with inWord := false, spelt := [] }

/-- Pass over a text as it is written. -/
def pass (mode : Mode) (text : List Char) : Reader × List Piece :=
  ({ r with mode := mode }, text.map (fun c => .mark (.unread c)))

/-- From here on the script is not read. -/
def leave (text : List Char) : Reader × List Piece := r.pass .outside text

def openQuote (quote : Quote) : Reader × List Piece :=
  ({ r.begun with quote := quote }, if r.inWord then [] else [.mark .quote])

def closeQuote : Reader × List Piece := ({ r.begun with quote := .none }, [])

def inert (c : Char) : Reader × List Piece := (r.begun, [.mark (.inert c)])

def openSub (backquoted : Bool) (mode : Mode) : Reader × List Piece :=
  (⟨.none, 0, ⟨r.quote, r.parens, backquoted⟩ :: r.outer, mode, false, []⟩,
    [.mark (.openSub r.quoted)])

def closeParen : Reader × List Piece :=
  match r.parens, r.outer with
  | 0, ⟨quote, parens, false⟩ :: outer =>
    (⟨quote, parens, outer, .plain, true, []⟩, [.mark .closeSub])
  | parens, _ => ({ r.between with parens := parens - 1 }, [.mark (.bare ')')])

/-- A backquote ends the substitution that a backquote opened, outside of quotes and of another
substitution in it. -/
def closeBackquote : Reader × List Piece :=
  match r.mode, r.quote, r.parens, r.outer with
  | .plain, .none, 0, ⟨quote, parens, true⟩ :: outer =>
    (⟨quote, parens, outer, .plain, true, []⟩, [.mark .closeSub])
  | _, _, _, _ => r.leave [backquote]

def bareStep (c : Char) : Reader × List Piece :=
  if c = '\\' then ({ r with mode := .escaped }, [])
  else if c = apostrophe then r.openQuote .single
  else if c = '"' then r.openQuote .double
  else if c = '$' then ({ r with mode := .dollar }, [])
  else if c = backquote then r.openSub true .plain
  else if c = '#' ∧ r.inWord = false then ({ r with mode := .comment }, [])
  else if c = '(' then ({ r.between with parens := r.parens + 1 }, [.mark (.bare c)])
  else if c = ')' then r.closeParen
  else if c = '<' then ({ r.between with mode := .less }, [.mark (.bare c)])
  else if isSeparator c then
    if r.spelt = ['c', 'a', 's', 'e'] ∧ r.outer ≠ [] then r.leave [c]
    else (r.between, [.mark (.bare c)])
  else ({ r with inWord := true, spelt := r.spelt ++ [c] }, [.mark (.bare c)])

def doubleStep (c : Char) : Reader × List Piece :=
  if c = '\\' then ({ r with mode := .escaped }, [])
  else if c = '"' then r.closeQuote
  else if c = '$' then ({ r with mode := .dollar }, [])
  else if c = backquote then r.openSub true .plain
  else r.inert c

def plainStep (c : Char) : Reader × List Piece :=
  match r.quote with
  | .none => r.bareStep c
  | .single => if c = apostrophe then r.closeQuote else r.inert c
  | .double => r.doubleStep c

/-- The character behind a backslash. In double quotes the backslash stays in front of a character
that it does not escape. -/
def escapedStep (c : Char) : Reader × List Piece :=
  if c = '\n' then ({ r with mode := .plain }, [])
  else if r.quote = .double ∧ c ∉ ['$', backquote, '"', '\\'] then
    (r.begun, [.mark (.inert '\\'), .mark (.inert c)])
  else r.inert c

/-- The character behind a `$`. Outside of quotes shells differ on a quote there, and a backslash
may continue the line. -/
def dollarStep (c : Char) : Reader × List Piece :=
  if c = '$' then (r.begun, [.mark (.pid r.quoted)])
  else if c = '(' then r.openSub false .subOpen
  else if c = '\x7b' then ({ r with mode := .braced [] }, [])
  else if c = '\\' ∨ (c = '"' ∨ c = apostrophe) ∧ r.quote = .none then r.leave ['$', c]
  else
    let (r', pieces) := r.begun.plainStep c
    (r', .mark (.dollar r.quoted) :: pieces)

/-- A character behind `$(` or `<`, unless a backslash may continue the line. -/
def pendingStep (c : Char) : Reader × List Piece :=
  if c = '\\' then r.leave [c] else plainStep { r with mode := .plain } c

def bracedStep (name : List Char) (c : Char) : Reader × List Piece :=
  if isNameChar c then ({ r with mode := .braced (name ++ [c]) }, [])
  else if c = '\x7d' ∧ name ≠ [] then (r.begun, [.param name r.quoted])
  else
    r.pass (if c ∈ [':', '-', '=', '?', '+', '%', '#'] then .operator else .outside)
      ('$' :: '\x7b' :: (name ++ [c]))

def startsQuoting (c : Char) : Bool := ['\\', '"', apostrophe, backquote].contains c

def operatorStep (c : Char) : Reader × List Piece :=
  if startsQuoting c ∨ c = '$' then r.leave [c]
  else if c = '\x7d' then r.begun.pass .plain [c]
  else r.pass .operator [c]

/-- Arithmetic, inside so many parentheses, behind a `$` or not. -/
def arithStep (depth : ℕ) (dollar : Bool) (c : Char) : Reader × List Piece :=
  if startsQuoting c ∨ c = '(' ∧ dollar = true then r.leave [c]
  else if c = '(' then r.pass (.arith (depth + 1) false) [c]
  else if c = ')' then r.pass (if depth = 0 then .arithEnd else .arith (depth - 1) false) [c]
  else r.pass (.arith depth (c = '$')) [c]

def modeStep (c : Char) : Reader × List Piece :=
  match r.mode with
  | .plain => r.plainStep c
  | .escaped => r.escapedStep c
  | .dollar => r.dollarStep c
  | .braced name => r.bracedStep name c
  | .operator => r.operatorStep c
  | .subOpen => if c = '(' then r.pass (.arith 0 false) [c] else r.pendingStep c
  | .arith depth dollar => r.arithStep depth dollar c
  | .arithEnd => if c = ')' then closeParen { r with mode := .plain } else r.leave [c]
  | .less => if c = '<' then r.leave [c] else r.pendingStep c
  | .comment =>
    if c = '\n' then ({ r.between with mode := .plain }, [.mark (.bare c)]) else (r, [])
  | .outside => r.leave [c]

def step (c : Char) : Reader × List Piece :=
  if (c = '\\' ∨ c = backquote) ∧ r.backquoted = true then
    if c = backquote then r.closeBackquote else r.leave [c]
  else r.modeStep c

theorem step_of_ne {c : Char} (h : c ≠ '\\' ∧ c ≠ backquote) : r.step c = r.modeStep c :=
  if_neg (fun hand => hand.1.elim h.1 h.2)

/-- The value of a variable as inert text, which is part of a word even where it is empty. -/
def hold (name : List Char) : Reader × List Piece :=
  let begun : List Piece := if r.quote = .none ∧ r.inWord = false then [.mark .quote] else []
  match r.mode with
  | .plain | .subOpen | .less => (r.begun, begun ++ [.param name true])
  | .escaped =>
    (r.begun, (if r.quote = .double then [.mark (.inert '\\')] else begun) ++ [.param name true])
  | .dollar => (r.begun, [.mark (.dollar r.quoted), .param name true])
  | .comment => (r, [])
  | _ => ({ r with mode := .outside }, [.param name true])

def finish : List Piece :=
  match r.mode with
  | .escaped => [.mark (.inert '\\')]
  | .dollar => [.mark (.dollar r.quoted)]
  | _ => []

end Reader

/-- A script in which the values of variables stand as inert text. -/
inductive Item
  | char (c : Char)
  | value (name : List Char)
  deriving DecidableEq

namespace Reader

def readItem (r : Reader) : Item → Reader × List Piece
  | .char c => r.step c
  | .value name => r.hold name

/-- The pieces of a script, read from the given state on. -/
def read (r : Reader) : List Item → List Piece
  | [] => r.finish
  | item :: rest => (r.readItem item).2 ++ read (r.readItem item).1 rest

def readText (r : Reader) (cs : List Char) : List Piece := r.read (cs.map .char)

def readPart (r : Reader) : List Char → Reader × List Piece
  | [] => (r, [])
  | c :: cs =>
    let (r', pieces) := readPart (r.step c).1 cs
    (r', (r.step c).2 ++ pieces)

theorem readText_append (r : Reader) (cs ds : List Char) :
    r.readText (cs ++ ds) = (r.readPart cs).2 ++ (r.readPart cs).1.readText ds := by
  induction cs generalizing r with
  | nil => rfl
  | cons c cs ih =>
    change (r.step c).2 ++ (r.step c).1.readText (cs ++ ds) = _
    rw [ih, ← append_assoc]
    rfl

/-! ### A parameter in braces -/

theorem ne_of_isNameChar {c : Char} (h : isNameChar c = true) : c ≠ '\\' ∧ c ≠ backquote := by
  constructor
  · rintro rfl
    exact absurd h (by decide)
  · rintro rfl
    exact absurd h (by decide)

theorem readPart_braced (r : Reader) {acc name : List Char} (hmode : r.mode = .braced acc)
    (hname : ∀ c ∈ name, isNameChar c = true) :
    r.readPart name = ({ r with mode := .braced (acc ++ name) }, []) := by
  induction name generalizing r acc with
  | nil =>
    rw [append_nil, ← hmode]
    rfl
  | cons c name ih =>
    have hc : isNameChar c = true := hname c mem_cons_self
    have hstep : r.step c = ({ r with mode := .braced (acc ++ [c]) }, []) := by
      rw [step_of_ne r (ne_of_isNameChar hc), modeStep, hmode]
      simp only [bracedStep, hc, if_true]
    have hrest := ih (r.step c).1 (by rw [hstep]) (fun d hd => hname d (mem_cons_of_mem c hd))
    rw [readPart, hrest, hstep]
    simp only [append_assoc, singleton_append, nil_append]

/-- The text that refers to a variable, as it is written in double quotes. -/
def reference (name : List Char) : List Char := '$' :: '\x7b' :: (name ++ ['\x7d'])

theorem readPart_append (r : Reader) (cs ds : List Char) :
    r.readPart (cs ++ ds) = (((r.readPart cs).1.readPart ds).1,
      (r.readPart cs).2 ++ ((r.readPart cs).1.readPart ds).2) := by
  induction cs generalizing r with
  | nil => rfl
  | cons c cs ih => simp only [cons_append, readPart, ih, append_assoc]

theorem readPart_reference (r : Reader) {name : List Char} (hmode : r.mode = .plain)
    (hquote : r.quote ≠ .single) (hnonempty : name ≠ [])
    (hname : ∀ c ∈ name, isNameChar c = true) :
    r.readPart (reference name) = (r.begun, [.param name r.quoted]) := by
  have hdollar : r.step '$' = ({ r with mode := .dollar }, []) := by
    obtain ⟨quote, parens, outer, mode, inWord, spelt⟩ := r
    obtain rfl : mode = .plain := hmode
    cases quote with
    | none => rfl
    | single => exact absurd rfl hquote
    | double => rfl
  have hbrace : step { r with mode := .dollar } '\x7b' = ({ r with mode := .braced [] }, []) := rfl
  have hclose : step { r with mode := .braced name } '\x7d' =
      (r.begun, [.param name r.quoted]) := by
    have hnot : isNameChar '\x7d' = false := rfl
    rw [step_of_ne _ (by decide)]
    simp [modeStep, bracedStep, hnot, hnonempty, quoted, begun]
  have hnames := readPart_braced { r with mode := .braced [] } rfl hname
  rw [reference, readPart, hdollar]
  dsimp only
  rw [readPart, hbrace]
  dsimp only
  rw [readPart_append, hnames]
  dsimp only [nil_append]
  rw [readPart, hclose]
  simp only [readPart, append_nil]

end Reader

def words (env : Env) (script : List Item) : List Mark :=
  (Reader.start.read script).flatMap (Piece.expand env)

def textWords (env : Env) (script : List Char) : List Mark := words env (script.map .char)

end Sipnab.Shell
