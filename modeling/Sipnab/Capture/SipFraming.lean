import Sipnab.Lib.Cuts
import Sipnab.Lib.Text
import Sipnab.Lib.Utf8

/-!
# SIP messages in a byte stream

Over TCP a message ends where its `Content-Length` says. The framer finds the end of the headers,
reads the length from them line by line, and cuts the stream there, message by message. What is left
is the beginning of a message that has not fully arrived.
-/

namespace Sipnab

open Text

def asciiBytes (s : String) : List UInt8 := s.toList.map (fun c => UInt8.ofNat c.toNat)

def cr : UInt8 := 13

def lf : UInt8 := 10

def colon : UInt8 := 58

def usizeBound : ℕ := 2 ^ 64

def parseUsize : List Char → Option ℕ := parseUnsigned usizeBound

def findCrlf (data : List UInt8) : Option ℕ := findInfix [cr, lf] data

/-! ## Where a message starts -/

def maxMethodLen : ℕ := 32

def isTokenByte (b : UInt8) : Bool :=
  (48 ≤ b && b ≤ 57) || (65 ≤ b && b ≤ 90) || (97 ≤ b && b ≤ 122) ||
    (asciiBytes "-.!%*_+`'~").contains b

def isAsciiWhitespace (b : UInt8) : Bool :=
  b == 32 || b == 9 || b == 10 || b == 12 || b == 13

/-- A status line, or a request line with a method, a URI and the version. -/
def startsSipMessage (data : List UInt8) : Bool :=
  if data.length < 8 then false
  else if (asciiBytes "SIP/2.0 ").isPrefixOf data then true
  else
    let methodLen := ((data.take maxMethodLen).takeWhile isTokenByte).length
    if methodLen = 0 ∨ data[methodLen]? ≠ some 32 then false
    else match findCrlf data with
      | none => false
      | some lineEnd =>
        let firstLine := data.take lineEnd
        if !(asciiBytes " SIP/2.0").isSuffixOf firstLine then false
        else
          let uriStart := methodLen + 1
          let uriEnd := firstLine.length - 8
          uriStart ≤ uriEnd && !((firstLine.take uriEnd).drop uriStart).all isAsciiWhitespace

def isSipMessage (data : List UInt8) : Bool := startsSipMessage data

/-! ## Where a message ends -/

/-- Where the body starts: behind the first blank line, ended by CRLF or by LF alone. -/
def findHeaderEnd (data : List UInt8) : Option ℕ :=
  let crlf := (findInfix [cr, lf, cr, lf] data).map (· + 4)
  let bare := (findInfix [lf, lf] data).map (· + 2)
  match crlf, bare with
  | some a, some b => some (min a b)
  | some a, none => some a
  | none, some b => some b
  | none, none => none

def stripCr (line : List UInt8) : List UInt8 :=
  if line.getLast? = some cr then line.dropLast else line

def trimmedText (bs : List UInt8) : List Char := trim ((Utf8.decode bs).getD [])

/-- The line's value where it is a `Content-Length` or `l` header; a value that is no number counts
as zero. -/
def contentLengthLine (line : List UInt8) : Option ℕ :=
  let line := stripCr line
  match line.idxOf? colon with
  | none => none
  | some i =>
    let name := trimmedText (line.take i)
    if eqIgnoreAsciiCase name "content-length".toList || eqIgnoreAsciiCase name "l".toList then
      some ((parseUsize (trimmedText (line.drop (i + 1)))).getD 0)
    else none

/-- The value of the first such line, zero where there is none. -/
def parseContentLength (headers : List UInt8) : ℕ :=
  ((headers.splitOn lf).findSome? contentLengthLine).getD 0

/-- Where the first message of a stream ends, if all of it has arrived. -/
def messageEnd (data : List UInt8) : Option ℕ :=
  (findHeaderEnd data).bind (fun bodyStart =>
    let msgEnd := bodyStart + parseContentLength (data.take bodyStart)
    if usizeBound ≤ msgEnd ∨ data.length < msgEnd then none else some msgEnd)

/-- Cut off one message after the other; each is at least two bytes long. -/
def frameLoop : ℕ → ℕ → List UInt8 → List (ℕ × ℕ) × ℕ
  | 0, pos, _ => ([], pos)
  | n + 1, pos, rest =>
    match messageEnd rest with
    | none => ([], pos)
    | some msgEnd =>
      let (ranges, consumed) := frameLoop n (pos + msgEnd) (rest.drop msgEnd)
      ((pos, pos + msgEnd) :: ranges, consumed)

/-- The ranges of the complete messages, and where what is left starts. -/
def frameTcpSip (data : List UInt8) : List (ℕ × ℕ) × ℕ := frameLoop data.length 0 data

def slice (data : List UInt8) (r : ℕ × ℕ) : List UInt8 := (data.take r.2).drop r.1

/-! ## What the framer cuts -/

theorem two_le_of_findHeaderEnd {data : List UInt8} {i : ℕ} (h : findHeaderEnd data = some i) :
    2 ≤ i := by
  rw [findHeaderEnd] at h
  cases hcrlf : findInfix [cr, lf, cr, lf] data <;> cases hbare : findInfix [lf, lf] data <;>
    rw [hcrlf, hbare] at h <;> simp at h <;> omega

theorem messageEnd_eq_some_iff {data : List UInt8} {msgEnd : ℕ} :
    messageEnd data = some msgEnd ↔
      ∃ bodyStart, findHeaderEnd data = some bodyStart ∧
        msgEnd = bodyStart + parseContentLength (data.take bodyStart) ∧
        msgEnd < usizeBound ∧ msgEnd ≤ data.length := by
  rw [messageEnd, Option.bind_eq_some_iff]
  refine exists_congr (fun bodyStart => and_congr_right (fun _ => ?_))
  dsimp only
  split_ifs with hlong
  · refine iff_of_false (fun h => by cases h) ?_
    rintro ⟨rfl, hbound, hlength⟩
    omega
  · rw [Option.some.injEq]
    constructor
    · rintro rfl
      omega
    · rintro ⟨rfl, -⟩
      rfl

theorem frameLoop_spec (n pos : ℕ) (rest : List UInt8) :
    (∀ r ∈ (frameLoop n pos rest).1, ∃ i, r.1 = pos + i ∧ i ≤ rest.length ∧
        ∃ msgEnd, messageEnd (rest.drop i) = some msgEnd ∧ r.2 = r.1 + msgEnd) ∧
      ∃ i, (frameLoop n pos rest).2 = pos + i ∧ i ≤ rest.length := by
  induction n generalizing pos rest with
  | zero => exact ⟨fun r hr => absurd hr List.not_mem_nil, 0, rfl, Nat.zero_le _⟩
  | succ n ih =>
    rw [frameLoop]
    cases hend : messageEnd rest with
    | none => exact ⟨fun r hr => absurd hr List.not_mem_nil, 0, rfl, Nat.zero_le _⟩
    | some msgEnd =>
      obtain ⟨-, -, -, -, hlength⟩ := messageEnd_eq_some_iff.mp hend
      obtain ⟨hranges, i, hconsumed, hi⟩ := ih (pos + msgEnd) (rest.drop msgEnd)
      rw [List.length_drop] at hi
      refine ⟨?_, msgEnd + i, by rw [← Nat.add_assoc]; exact hconsumed, by omega⟩
      intro r hr
      rcases List.mem_cons.mp hr with rfl | hr
      · exact ⟨0, rfl, Nat.zero_le _, msgEnd, hend, rfl⟩
      · obtain ⟨j, hj, hjlength, msgEnd', hmessage, hstop⟩ := hranges r hr
        rw [List.length_drop] at hjlength
        rw [List.drop_drop] at hmessage
        exact ⟨msgEnd + j, by omega, by omega, msgEnd', hmessage, hstop⟩

theorem frameTcpSip_range {data : List UInt8} {r : ℕ × ℕ} (h : r ∈ (frameTcpSip data).1) :
    ∃ msgEnd, messageEnd (data.drop r.1) = some msgEnd ∧ r.2 = r.1 + msgEnd ∧
      slice data r = (data.drop r.1).take msgEnd := by
  obtain ⟨i, hi, -, msgEnd, hmessage, hstop⟩ := (frameLoop_spec data.length 0 data).1 r h
  rw [Nat.zero_add] at hi
  rw [← hi] at hmessage
  refine ⟨msgEnd, hmessage, hstop, ?_⟩
  rw [slice, hstop, List.drop_take, Nat.add_sub_cancel_left]

theorem frameTcpSip_consumed_le (data : List UInt8) : (frameTcpSip data).2 ≤ data.length := by
  obtain ⟨i, hi, hle⟩ := (frameLoop_spec data.length 0 data).2
  rw [frameTcpSip]
  omega

end Sipnab
