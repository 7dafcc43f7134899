import Sipnab.Sip.FilterDsl

/-!
# Named filters

A `@name` outside quotes refers to a filter defined elsewhere, and is replaced by the text of its
definition in parentheses. One scanner finds the references, for replacing them and for refusing
those that are left.
-/

namespace Sipnab.Dsl

open Text

def isNameChar (c : Char) : Bool := isAsciiAlphanumeric c || c == '-' || c == '_'

def isAsciiWhitespace (c : Char) : Bool :=
  c == ' ' || c == '\t' || c == '\n' || c == '\x0C' || c == '\r'

/-- Where the scan for references is: the quote it is inside, the character before, and how many
characters are already read. -/
structure RefScan where
  quote : Option Char
  prev : Option Char
  skip : ℕ
  deriving DecidableEq

/-- A reference begins an atom: nothing, a blank or a `(` precedes it. -/
def beginsAtom : Option Char → Bool
  | none => true
  | some c => isAsciiWhitespace c || c == '('

/-- The length of the name of the reference at a character, zero if there is none. -/
def refLength (st : RefScan) (c : Char) (rest : List Char) : ℕ :=
  if st.skip = 0 ∧ st.quote = none ∧ c = '@' ∧ beginsAtom st.prev = true then
    (rest.takeWhile isNameChar).length
  else 0

def refStep (st : RefScan) (c : Char) (rest : List Char) : RefScan :=
  if 0 < st.skip then ⟨st.quote, some c, st.skip - 1⟩
  else
    match st.quote with
    | some q =>
      if c = '\\' then ⟨some q, some c, 1⟩
      else if c = q then ⟨none, some c, 0⟩
      else ⟨some q, some c, 0⟩
    | none =>
      if isQuote c then ⟨some c, some c, 0⟩ else ⟨none, some c, refLength st c rest⟩

def referenceSpansFrom : ℕ → RefScan → List Char → List (ℕ × ℕ)
  | _, _, [] => []
  | i, st, c :: rest =>
    if refLength st c rest = 0 then referenceSpansFrom (i + 1) (refStep st c rest) rest
    else (i, i + 1 + refLength st c rest) :: referenceSpansFrom (i + 1) (refStep st c rest) rest

/-- Where the references are, as characters from the front; what the scan looks for is ASCII, so
that counting bytes would find the same ones. -/
def referenceSpans (input : List Char) : List (ℕ × ℕ) :=
  referenceSpansFrom 0 ⟨none, none, 0⟩ input

def spanName (input : List Char) (span : ℕ × ℕ) : List Char := (input.take span.2).drop (span.1 + 1)

def firstReference (input : List Char) : Option (List Char) :=
  (referenceSpans input).head?.map (spanName input)

def substituteFrom (input : List Char) (lookup : List Char → Option (List Char)) :
    ℕ → List (ℕ × ℕ) → List Char
  | copied, [] => input.drop copied
  | copied, span :: spans =>
    match lookup (spanName input span) with
    | some text =>
      (input.take span.1).drop copied ++ '(' :: text ++ ')' ::
        substituteFrom input lookup span.2 spans
    | none => substituteFrom input lookup copied spans

def substituteRefs (input : List Char) (lookup : List Char → Option (List Char)) : List Char :=
  substituteFrom input lookup 0 (referenceSpans input)

end Sipnab.Dsl
