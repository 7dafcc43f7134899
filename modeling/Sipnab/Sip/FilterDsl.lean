import Sipnab.Lib.Logged
import Sipnab.Lib.Scanner
import Sipnab.Sip.Parser

/-!
# The filter language

A filter selects dialogs. Its text is read by recursive descent: comparisons of a field with a
value, joined by `AND`, `OR` and `NOT` and grouped by parentheses. A value is quoted, or bare up to
a blank, a quote or a `)` that closes nothing of its own, and it is then read by the type of its
field. Regular expressions, floating point numbers and instants are read by other libraries.
-/

namespace Sipnab.Dsl

open Text

/-! ## Expressions -/

inductive Field
  | fromUser | toUser | fromHost | toHost | fromUri | toUri | ruri | paiUser | rtpCodecs | side
  | endpoint | method | ua | callId | payload | srcIp | dstIp | srcPort | dstPort | state
  | duration | msgCount | responseClass | responseCode | pdd | setupTime | retransmits | rtpMos
  | rtpJitter | rtpLoss | rtpPackets | rtpCodec | rtpSsrc | oneWay | natMismatch | noMedia
  | codecAsymmetry | ptimeAsymmetry | payloadAsymmetry | durationAsymmetry | lateMedia | time
  | header (name : String)
  deriving DecidableEq

inductive Operator
  | eq | ne | lt | gt | le | ge | regex | inSubnet
  deriving DecidableEq

inductive ValueKind
  | text | number | boolean | instant
  deriving DecidableEq

namespace Field

def isDiagnosis : Field → Bool
  | oneWay | natMismatch | noMedia | codecAsymmetry | ptimeAsymmetry | payloadAsymmetry
  | durationAsymmetry | lateMedia => true
  | _ => false

def valueKind : Field → ValueKind
  | srcPort | dstPort | duration | msgCount | responseCode | pdd | setupTime | retransmits
  | rtpMos | rtpJitter | rtpLoss | rtpPackets => .number
  | oneWay | natMismatch | noMedia | codecAsymmetry | ptimeAsymmetry | payloadAsymmetry
  | durationAsymmetry | lateMedia => .boolean
  | time => .instant
  | _ => .text

end Field

/-- What reads the values of the other libraries' types; an instant is in nanoseconds. -/
structure Engines where
  Regex : Type
  BytesRegex : Type
  Number : Type
  regex : List Char → Option Regex
  bytesRegex : List Char → Option BytesRegex
  /-- A finite floating point number. -/
  number : List Char → Option Number
  parseInstant : List Char → Option ℤ
  toRfc3339 : ℤ → List Char

variable (eng : Engines)

inductive Value
  | str (text : List Char)
  | num (n : eng.Number)
  | bool (b : Bool)
  | re (re : eng.Regex)
  | reBytes (re : eng.BytesRegex)
  | instant (t : ℤ)

inductive Expr
  | and (lhs rhs : Expr)
  | or (lhs rhs : Expr)
  | not (inner : Expr)
  | compare (field : Field) (op : Operator) (value : Value eng)
  | window (after before : Option ℤ)

variable {eng}

namespace Expr

def countNodes : Expr eng → ℕ
  | and lhs rhs => lhs.countNodes + rhs.countNodes + 1
  | or lhs rhs => lhs.countNodes + rhs.countNodes + 1
  | not inner => inner.countNodes + 1
  | compare .. => 1
  | window .. => 1

def referencesDiagnosis : Expr eng → Bool
  | and lhs rhs => lhs.referencesDiagnosis || rhs.referencesDiagnosis
  | or lhs rhs => lhs.referencesDiagnosis || rhs.referencesDiagnosis
  | not inner => inner.referencesDiagnosis
  | compare field _ _ => field.isDiagnosis
  | window .. => false

end Expr

/-! ## Words and blanks -/

/-- What went wrong. A failed comparison is never tried another way, so whether a failure may be
recovered from is not kept. -/
inductive ErrorKind
  | tag | takeWhile1 | char | headerNameTooLong | headerNameInvalid | timeOperatorInvalid
  | timeValueInvalid | numberValueInvalid | boolValueInvalid | boolOperatorInvalid | bareValueSpace
  | bareValueQuote | bareValueReserved | quotedValueUnterminated | symbolicCombinator
  | regexInvalid
  deriving DecidableEq

structure NomErr where
  kind : ErrorKind
  input : List Char
  deriving DecidableEq

def isMultispace (c : Char) : Bool := c == ' ' || c == '\t' || c == '\r' || c == '\n'

def multispace0 (s : List Char) : List Char := s.dropWhile isMultispace

def keyword (word s : List Char) : Option (List Char) :=
  if eqIgnoreAsciiCase (s.take word.length) word then
    match s.drop word.length with
    | c :: rest => if isMultispace c then some (multispace0 rest) else none
    | [] => none
  else none

/-! ## Quoted and bare values -/

def isQuote (c : Char) : Bool := c == '\'' || c == '"'

/-- The text up to the closing quote, escaped quotes without their backslash, and what follows. -/
def scanQuotedString (quote : Char) : List Char → Option (List Char × List Char)
  | [] => none
  | '\\' :: [] => none
  | '\\' :: c :: rest =>
    (scanQuotedString quote rest).map (fun p =>
      (if isQuote c then c :: p.1 else '\\' :: c :: p.1, p.2))
  | c :: rest =>
    if c = quote then some ([], rest)
    else (scanQuotedString quote rest).map (fun p => (c :: p.1, p.2))

def isReservedBareStart (c : Char) : Bool :=
  c == '=' || c == '!' || c == '<' || c == '>' || c == '@' || c == ')'

/-- Where the scan of a bare value is: how many of its parentheses are open, whether a class of a
regular expression is, and whether a backslash precedes. -/
structure BareScan where
  depth : ℕ
  inClass : Bool
  escaped : Bool
  deriving DecidableEq

/-- The scan behind one more character; nothing if the value ends before it. -/
def bareStep (regex : Bool) (st : BareScan) (c : Char) : Option BareScan :=
  if isWhitespace c then none
  else if st.escaped then some { st with escaped := false }
  else if isQuote c then none
  else if c == '\\' && regex then some { st with escaped := true }
  else if c == '[' && regex && !st.inClass then some { st with inClass := true }
  else if c == ']' && regex && st.inClass then some { st with inClass := false }
  else if st.inClass then some st
  else if c == '(' then some { st with depth := st.depth + 1 }
  else if c == ')' then if st.depth = 0 then none else some { st with depth := st.depth - 1 }
  else some st

def scanBareValue (input : List Char) (regex : Bool) : List Char × List Char :=
  Scanner.scan (bareStep regex) ⟨0, false, false⟩ input

/-- Whether the word stands at the front, with a blank or nothing behind it. -/
def startsWithWord (word rest : List Char) : Bool :=
  eqIgnoreAsciiCase (rest.take word.length) word &&
    (match rest.drop word.length with
      | [] => true
      | c :: _ => isWhitespace c)

def endsAComparison (rest : List Char) : Bool :=
  match trimStart rest with
  | [] => true
  | c :: rest' =>
    c == ')' || startsWithWord "AND".toList (c :: rest') || startsWithWord "OR".toList (c :: rest')

/-! ## Comparisons -/

def maxHeaderNameLen : ℕ := 256

def headerFieldPrefix : List Char := "header.".toList

def fieldNames : List (List Char × Field) :=
  [("from.user".toList, .fromUser), ("to.user".toList, .toUser), ("from.host".toList, .fromHost),
    ("to.host".toList, .toHost), ("from.uri".toList, .fromUri), ("to.uri".toList, .toUri),
    ("ruri".toList, .ruri), ("pai.user".toList, .paiUser), ("rtp.codecs".toList, .rtpCodecs),
    ("side".toList, .side), ("endpoint".toList, .endpoint), ("method".toList, .method),
    ("ua".toList, .ua), ("call_id".toList, .callId), ("payload".toList, .payload),
    ("src.ip".toList, .srcIp), ("dst.ip".toList, .dstIp), ("src.port".toList, .srcPort),
    ("dst.port".toList, .dstPort), ("state".toList, .state), ("duration".toList, .duration),
    ("msg_count".toList, .msgCount), ("response_code".toList, .responseCode),
    ("final_status_code".toList, .responseCode), ("response_class".toList, .responseClass),
    ("pdd".toList, .pdd), ("setup_time".toList, .setupTime), ("retransmits".toList, .retransmits),
    ("rtp.mos".toList, .rtpMos), ("rtp.jitter".toList, .rtpJitter), ("rtp.loss".toList, .rtpLoss),
    ("rtp.packets".toList, .rtpPackets), ("rtp.codec".toList, .rtpCodec),
    ("rtp.ssrc".toList, .rtpSsrc), ("one_way".toList, .oneWay),
    ("nat_mismatch".toList, .natMismatch), ("no_media".toList, .noMedia),
    ("codec_asymmetry".toList, .codecAsymmetry), ("ptime_asymmetry".toList, .ptimeAsymmetry),
    ("payload_asymmetry".toList, .payloadAsymmetry),
    ("duration_asymmetry".toList, .durationAsymmetry), ("late_media".toList, .lateMedia),
    ("time".toList, .time)]

def isAsciiAlphanumeric (c : Char) : Bool :=
  isAsciiDigit c || isAsciiUppercase c || ('a' ≤ c && c ≤ 'z')

def isIdentChar (c : Char) : Bool := isAsciiAlphanumeric c || c == '_'

def identifier (s : List Char) : List Char × List Char :=
  let first := s.takeWhile isIdentChar
  match s.dropWhile isIdentChar with
  | '.' :: rest =>
    let second := rest.takeWhile isIdentChar
    if second.isEmpty then (first, '.' :: rest)
    else (first ++ '.' :: second, rest.dropWhile isIdentChar)
  | rest => (first, rest)

def isTokenChar (c : Char) : Bool :=
  isAsciiAlphanumeric c || "-.!%*_+`'~".toList.contains c

def endsBareHeaderName (c : Char) : Bool :=
  isWhitespace c || "=!<>()'\"".toList.contains c

def headerName (after : List Char) : Option (List Char × List Char) :=
  match after with
  | quote :: rest =>
    if isQuote quote then scanQuotedString quote rest
    else some (after.takeWhile (fun c => !endsBareHeaderName c),
      after.dropWhile (fun c => !endsBareHeaderName c))
  | [] => some ([], [])

def parseHeaderField (input : List Char) : Except NomErr (Field × List Char) :=
  match headerName (input.drop headerFieldPrefix.length) with
  | none => .error ⟨.headerNameInvalid, input⟩
  | some (name, rest) =>
    if maxHeaderNameLen < textLen name then .error ⟨.headerNameTooLong, input⟩
    else if name.isEmpty || !name.all isTokenChar then .error ⟨.headerNameInvalid, input⟩
    else .ok (.header (expandCompactHeader name), rest)

def parseField (input : List Char) : Except NomErr (Field × List Char) :=
  if headerFieldPrefix.isPrefixOf input then parseHeaderField input
  else
    let p := identifier input
    if p.1.isEmpty then .error ⟨.takeWhile1, input⟩
    else match fieldNames.lookup p.1 with
      | some field => .ok (field, p.2)
      | none => .error ⟨.tag, input⟩

def operators : List (List Char × Operator) :=
  [("in_subnet".toList, .inSubnet), ("=~".toList, .regex), ("==".toList, .eq), ("!=".toList, .ne),
    ("<=".toList, .le), (">=".toList, .ge), ("<".toList, .lt), (">".toList, .gt)]

def parseOperator (input : List Char) : Except NomErr (Operator × List Char) :=
  match operators.find? (fun p => p.1.isPrefixOf input) with
  | some (word, op) => .ok (op, input.drop word.length)
  | none => .error ⟨.tag, input⟩

def timeOperators : List Operator := [.lt, .le, .gt, .ge, .eq]

def valueText (input : List Char) (op : Operator) : Except NomErr (List Char × List Char) :=
  match input with
  | [] => .error ⟨.char, input⟩
  | c :: body =>
    if isQuote c then
      match scanQuotedString c body with
      | none => .error ⟨.quotedValueUnterminated, input⟩
      | some p => .ok p
    else if isReservedBareStart c && c != ')' then .error ⟨.bareValueReserved, input⟩
    else
      let p := scanBareValue input (op == .regex)
      if p.1.isEmpty then .error ⟨.char, input⟩
      else if !endsAComparison p.2 then
        let next := trimStart p.2
        if "&&".toList.isPrefixOf next || "||".toList.isPrefixOf next then
          .error ⟨.symbolicCombinator, next⟩
        else if (next.head?.map isQuote).getD false then .error ⟨.bareValueQuote, input⟩
        else .error ⟨.bareValueSpace, input⟩
      else .ok p

def readValue (input text : List Char) (field : Field) (op : Operator) :
    Except NomErr (Value eng) :=
  if op = .regex then
    if field = .payload then
      match eng.bytesRegex text with
      | some re => .ok (.reBytes re)
      | none => .error ⟨.regexInvalid, input⟩
    else
      match eng.regex text with
      | some re => .ok (.re re)
      | none => .error ⟨.regexInvalid, input⟩
  else
    match field.valueKind with
    | .text => .ok (.str text)
    | .number =>
      match eng.number text with
      | some n => .ok (.num n)
      | none => .error ⟨.numberValueInvalid, input⟩
    | .boolean =>
      if eqIgnoreAsciiCase text "true".toList then .ok (.bool true)
      else if eqIgnoreAsciiCase text "false".toList then .ok (.bool false)
      else .error ⟨.boolValueInvalid, input⟩
    | .instant =>
      match eng.parseInstant text with
      | some t => .ok (.instant t)
      | none => .error ⟨.timeValueInvalid, input⟩

def parseValue (input : List Char) (field : Field) (op : Operator) :
    Except NomErr (Value eng × List Char) := do
  let input := multispace0 input
  let (text, rest) ← valueText input op
  let value ← readValue input text field op
  .ok (value, rest)

/-- The field and the operator of a comparison, and the text its value is read from. -/
def comparisonHead (input : List Char) : Except NomErr (Field × Operator × List Char) := do
  let (field, rest) ← parseField (multispace0 input)
  let opAt := multispace0 rest
  let (op, rest) ← parseOperator opAt
  if field = .time ∧ op ∉ timeOperators then .error ⟨.timeOperatorInvalid, opAt⟩
  else if field.valueKind = .boolean ∧ op ≠ .eq ∧ op ≠ .ne then
    .error ⟨.boolOperatorInvalid, opAt⟩
  else .ok (field, op, multispace0 rest)

def parseComparison (input : List Char) : Except NomErr (Expr eng × List Char) := do
  let (field, op, valueAt) ← comparisonHead input
  let (value, rest) ← parseValue valueAt field op
  .ok (.compare field op value, rest)

/-! ## The grammar -/

/-- What the parser reads, in order: text outside values, the parentheses of a group with the
expression read between them, and the values of comparisons as they are written. -/
inductive Event (eng : Engines)
  | text (cs : List Char)
  | openGroup
  | closeGroup (e : Expr eng)
  | value (op : Operator) (cs : List Char)

def consumed (s rest : List Char) : List Char := s.take (s.length - rest.length)

/-- The function at work; a loop holds the expression read so far. -/
inductive Rule (eng : Engines)
  | orExpr
  | orLoop (result : Expr eng)
  | andExpr
  | andLoop (result : Expr eng)
  | notExpr
  | atom

inductive Halt
  | error (err : NomErr)
  | outOfFuel
  deriving DecidableEq

abbrev Parsed (eng : Engines) := Logged (Event eng) Halt (Expr eng × List Char)

def comparison (s : List Char) : Parsed eng :=
  match comparisonHead s, parseComparison s with
  | .ok (_, op, valueAt), .ok (e, rest) =>
    .done [.text (consumed s valueAt), .value op (consumed valueAt rest)] (e, rest)
  | _, .error err => .fail (.error err)
  | .error err, _ => .fail (.error err)

def closeParen (p : Expr eng × List Char) : Parsed eng :=
  match multispace0 p.2 with
  | ')' :: rest => .done [.text (consumed p.2 (')' :: rest)), .closeGroup p.1] (p.1, rest)
  | rest => .fail (.error ⟨.char, rest⟩)

def parse : ℕ → Rule eng → List Char → Parsed eng
  | 0, _, _ => .fail .outOfFuel
  | n + 1, .orExpr, s => (parse n .andExpr s).andThen (fun p => parse n (.orLoop p.1) p.2)
  | n + 1, .orLoop result, s =>
    match keyword "OR".toList (trimStart s) with
    | some afterOr => ((parse n .andExpr afterOr).andThen (fun p =>
        parse n (.orLoop (.or result p.1)) p.2)).after [.text (consumed s afterOr)]
    | none => .done [] (result, s)
  | n + 1, .andExpr, s =>
    ((parse n .notExpr (multispace0 s)).andThen (fun p =>
      parse n (.andLoop p.1) p.2)).after [.text (consumed s (multispace0 s))]
  | n + 1, .andLoop result, s =>
    match keyword "AND".toList (trimStart s) with
    | some afterAnd => ((parse n .notExpr afterAnd).andThen (fun p =>
        parse n (.andLoop (.and result p.1)) p.2)).after [.text (consumed s afterAnd)]
    | none => .done [] (result, s)
  | n + 1, .notExpr, s =>
    match keyword "NOT".toList (multispace0 s) with
    | some afterNot => ((parse n .atom afterNot).andThen (fun p =>
        .done [] (.not p.1, p.2))).after [.text (consumed s afterNot)]
    | none => (parse n .atom (multispace0 s)).after [.text (consumed s (multispace0 s))]
  | n + 1, .atom, s =>
    match multispace0 s with
    | '(' :: inner =>
      ((parse n .orExpr inner).andThen closeParen).after
        [.text (consumed s ('(' :: inner)), .openGroup]
    | _ => (comparison (multispace0 s)).after [.text (consumed s (multispace0 s))]

def fuelFor (s : List Char) : ℕ := 6 * s.length + 6

def parseOrExpr (s : List Char) : Parsed eng := parse (fuelFor s) .orExpr s

/-! ## Compiled filters -/

def maxNestingDepth : ℕ := 50

def maxExpressionNodes : ℕ := 1024

/-- The depth of the parentheses in a text; nothing if it passes the bound. -/
def nestingFrom : ℕ → List Char → Option ℕ
  | depth, [] => some depth
  | depth, c :: rest =>
    if c = '(' then if maxNestingDepth < depth + 1 then none else nestingFrom (depth + 1) rest
    else if c = ')' then nestingFrom (depth - 1) rest
    else nestingFrom depth rest

def checkNestingDepth (input : List Char) : Bool := (nestingFrom 0 input).isSome

end Sipnab.Dsl
