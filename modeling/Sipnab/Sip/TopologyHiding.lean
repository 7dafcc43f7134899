import Sipnab.Lib.IndexMap
import Sipnab.Sip.Message

/-!
# Topology-hiding Call-IDs

A topology-hiding proxy rewrites the callee-side Call-ID of a call. The two legs are joined by a
mapping the proxy announced, or by decoding the rewritten Call-ID with its secret: a word64 text
of the caller-side Call-ID, xor-ed with the key.
-/

namespace Sipnab

def utf8Bytes (s : String) : List UInt8 := s.toUTF8.data.toList

def asciiText (bytes : List UInt8) : String := String.ofList (bytes.map (fun b => Char.ofNat b.toNat))

def isAsciiAlphanumeric (c : UInt8) : Bool :=
  (48 ≤ c && c ≤ 57) || (65 ≤ c && c ≤ 90) || (97 ≤ c && c ≤ 122)

def isWordChar (c : UInt8) : Bool :=
  isAsciiAlphanumeric c || (utf8Bytes "-.!%*_+`'~()<>:\\\"/[]?\x7b\x7d").contains c

def isTokenChar (c : UInt8) : Bool :=
  isAsciiAlphanumeric c || (utf8Bytes "-.!%*_+`'~").contains c

def isRfc3261Callid (b : List UInt8) : Bool :=
  let wordOk := fun w : List UInt8 => !w.isEmpty && w.all isWordChar
  match b.dropWhile (· ≠ 64) with
  | [] => wordOk b
  | _ :: host => wordOk (b.takeWhile (· ≠ 64)) && wordOk host

/-! ## Announced mappings -/

structure ThEntry where
  callee : String
  touched : DateTime
  conflicted : Bool
  deriving DecidableEq

structure ThMappingTable where
  byCaller : IndexMap String ThEntry
  byCallee : IndexMap String String
  max : ℕ
  ttl : ℤ
  deriving DecidableEq

namespace ThMappingTable

def new (max : ℕ) (ttlSecs : ℕ) : ThMappingTable where
  byCaller := .empty
  byCallee := .empty
  max
  ttl := ttlSecs * 1000000000

def isEmpty (t : ThMappingTable) : Bool := t.byCaller.entries.isEmpty

/-- A pair whose caller leg and callee leg are announced together, uncontradicted. -/
def joined (t : ThMappingTable) (caller callee : String) : Prop :=
  ∃ e ∈ t.byCaller.get? caller, e.conflicted = false ∧ e.callee = callee

instance (t : ThMappingTable) (caller callee : String) : Decidable (t.joined caller callee) :=
  inferInstanceAs (Decidable (∃ e ∈ t.byCaller.get? caller, _ ∧ _))

def links (t : ThMappingTable) (a b : String) : Prop := t.joined a b ∨ t.joined b a

instance (t : ThMappingTable) (a b : String) : Decidable (t.links a b) :=
  inferInstanceAs (Decidable (_ ∨ _))

/-- Renew the mappings a leg of which is present and drop those whose time is over. -/
def sweep (t : ThMappingTable) (now : DateTime) (present : String → Bool) : ThMappingTable :=
  let held := fun p : String × ThEntry => present p.1 || present p.2.callee
  let gone := fun p : String × ThEntry => !held p && decide (t.ttl < now - p.2.touched)
  let goneCallees := (t.byCaller.entries.filter gone).map (fun p => p.2.callee)
  { t with
    byCaller := (t.byCaller.filter (fun p => !gone p)).mapValues
      (fun k e => if held (k, e) then { e with touched := now } else e)
    byCallee := t.byCallee.filter (fun p => !goneCallees.contains p.1) }

end ThMappingTable

/-! ## Decoding -/

inductive Decode
  | notHidden
  | undecodable
  | decoded (callId : String) (embeddedTag : Option String)
  deriving DecidableEq

def word64Digits : List UInt8 :=
  utf8Bytes "ABCDEFGHIJKLMNOPQRSTUVWXYZabcdefghijklmnopqrstuvwxyz0123456789+."

def word64Pad : UInt8 := 45

def word64Value (c : UInt8) : Option UInt8 :=
  (word64Digits.idxOf? c).map UInt8.ofNat

/-- One group of four digits; only the last may be padded, and the padding bits are zero. -/
def word64Group (last : Bool) (a b c d : UInt8) : Option (List UInt8) :=
  let pads := ([d, c, b, a].takeWhile (· = word64Pad)).length
  if 2 < pads ∨ (0 < pads ∧ last = false) then none
  else do
    let v0 ← word64Value a
    let v1 ← word64Value b
    let first := (v0 <<< 2) ||| (v1 >>> 4)
    match pads with
    | 0 => do
      let v2 ← word64Value c
      let v3 ← word64Value d
      some [first, (v1 <<< 4) ||| (v2 >>> 2), (v2 <<< 6) ||| v3]
    | 1 => do
      let v2 ← word64Value c
      if v2 &&& 0x03 ≠ 0 then none else some [first, (v1 <<< 4) ||| (v2 >>> 2)]
    | _ => if v1 &&& 0x0f ≠ 0 then none else some [first]

def word64Groups : List UInt8 → Option (List UInt8)
  | [] => some []
  | a :: b :: c :: d :: rest => do
    let group ← word64Group rest.isEmpty a b c d
    let tail ← word64Groups rest
    some (group ++ tail)
  | _ => none

def word64Decode (input : List UInt8) : Option (List UInt8) :=
  if input.isEmpty then none else word64Groups input

def xorWithKey (buf key : List UInt8) : List UInt8 :=
  buf.mapIdx (fun i b => b ^^^ key.getD (i % key.length) 0)

def splitDecoded (plain : List UInt8) : Decode :=
  let (cid, tag) := match plain.dropWhile (· ≠ 124) with
    | [] => (plain, none)
    | _ :: tag => (plain.takeWhile (· ≠ 124), some tag)
  if isRfc3261Callid cid = false then .undecodable
  else match tag with
    | none => .decoded (asciiText cid) none
    | some t =>
      if t.isEmpty || !t.all isTokenChar then .undecodable
      else .decoded (asciiText cid) (some (asciiText t))

/-- The proxy's secret and the text its rewritten Call-IDs start with. -/
structure ThCallid where
  key : List UInt8
  hiddenPrefix : String
  key_ne_nil : key ≠ []
  hiddenPrefix_ne : hiddenPrefix ≠ ""

def ThCallid.decode (th : ThCallid) (callId : String) : Decode :=
  match (utf8Bytes th.hiddenPrefix).isPrefixOf? (utf8Bytes callId) with
  | none => .notHidden
  | some body =>
    match word64Decode body with
    | none => .undecodable
    | some plain => splitDecoded (xorWithKey plain th.key)

structure Leg where
  callId : String
  fromTag : Option String
  toTag : Option String
  deriving DecidableEq

/-- Whether `hidden`, decoded as given, is the callee side of `caller`. -/
def joins (decoded : Decode) (hidden caller : Leg) : Bool :=
  match decoded with
  | .decoded callId embeddedTag =>
    decide (callId = caller.callId) &&
      match hidden.fromTag, caller.fromTag with
      | some hiddenFrom, some callerFrom =>
        decide (hiddenFrom = callerFrom) &&
          (match hidden.toTag, caller.toTag with
            | some a, some b => decide (a = b)
            | _, _ => true) &&
          embeddedTag.all (fun tag => tag = callerFrom)
      | _, _ => false
  | _ => false

end Sipnab
