import Sipnab.Lib.Decimal
import Sipnab.Lib.Utf8

/-!
# Bencode

The control protocol of the relay sends one bencoded value in a message: an integer, a byte string,
a list or a dictionary, whose keys stay in the order of arrival. The decoder keeps to the canonical
spelling of numbers and lengths, refuses a key that comes twice, and goes no deeper than a fixed
bound. So a value that it accepts has one spelling, and the encoder writes it.
-/

namespace Sipnab.Relay.Bencode

open List

def maxDepth : ℕ := 16

abbrev Slice := {bytes : List UInt8 // bytes.length < 2 ^ 64}

inductive Value
  | int (n : Int64)
  | bytes (b : Slice)
  | list (items : List Value)
  | dict (entries : List (Slice × Value))

inductive DecodeError
  | trailing (count : ℕ)
  | nestedDeeper
  | unexpectedEnd
  | noValue (tag : UInt8)
  | integerUnterminated
  | integerEmpty
  | integerNotAscii
  | integerNotCanonical (text : List UInt8)
  | integerOutOfRange (text : List UInt8)
  | lengthUnterminated
  | lengthNotAscii
  | lengthNotCanonical (text : List UInt8)
  | lengthNotNumber (text : List UInt8)
  | bytesMissing (len remain : ℕ)
  | listUnterminated
  | dictUnterminated
  | duplicateKey (key : List UInt8)
  deriving DecidableEq

/-! ## Encoding -/

def intText (n : Int64) : List UInt8 :=
  if n.toInt < 0 then 45 :: Decimal.spell n.toInt.natAbs else Decimal.spell n.toInt.natAbs

def encodeInt (n : Int64) : List UInt8 := 105 :: (intText n ++ [101])

def encodeBytes (b : Slice) : List UInt8 := Decimal.spell b.val.length ++ 58 :: b.val

mutual

def encode : Value → List UInt8
  | .int n => encodeInt n
  | .bytes b => encodeBytes b
  | .list items => 108 :: (encodeItems items ++ [101])
  | .dict entries => 100 :: (encodeEntries entries ++ [101])

def encodeItems : List Value → List UInt8
  | [] => []
  | v :: vs => encode v ++ encodeItems vs

def encodeEntries : List (Slice × Value) → List UInt8
  | [] => []
  | (k, v) :: es => encodeBytes k ++ (encode v ++ encodeEntries es)

end

def sortedByKey (entries : List (Slice × Value)) : List (Slice × Value) :=
  entries.mergeSort (fun a b => !(List.lex b.1.val a.1.val (fun x y => decide (x < y))))

def encodeDict (entries : List (Slice × Value)) : List UInt8 := encode (.dict (sortedByKey entries))

/-! ## Decoding -/

def decodeInt (input : List UInt8) : Except DecodeError (Value × List UInt8) := do
  let body := input.drop 1
  let some stop := body.idxOf? 101 | throw .integerUnterminated
  let text := body.take stop
  if text = [] then throw .integerEmpty
  if Utf8.decode text = none then throw .integerNotAscii
  let digitsOnly := if text.head? = some 45 then text.drop 1 else text
  if ¬ (digitsOnly ≠ [] ∧ digitsOnly.all Decimal.isDigit) then throw (.integerNotCanonical text)
  if ¬ (text = [48] ∨ text.head? ≠ some 48 ∧ ¬ [45, 48].isPrefixOf text) then
    throw (.integerNotCanonical text)
  let magnitude : ℤ := Decimal.value digitsOnly
  let n := if text.head? = some 45 then -magnitude else magnitude
  if ¬ (-2 ^ 63 ≤ n ∧ n < 2 ^ 63) then throw (.integerOutOfRange text)
  return (.int (Int64.ofInt n), body.drop (stop + 1))

/-- The key of an entry is read without looking at its first byte. -/
def decodeSlice (input : List UInt8) : Except DecodeError (Slice × List UInt8) := do
  let some colon := input.idxOf? 58 | throw .lengthUnterminated
  let text := input.take colon
  if Utf8.decode text = none then throw .lengthNotAscii
  if ¬ (text ≠ [] ∧ text.all Decimal.isDigit) then throw (.lengthNotCanonical text)
  if ¬ (text = [48] ∨ text.head? ≠ some 48) then throw (.lengthNotCanonical text)
  let len := Decimal.value text
  if h : len < 2 ^ 64 then
    let start := colon + 1
    -- the source checks the sum for overflow: past the machine word it is past the end as well
    if start + len ≤ input.length then
      return (⟨(input.drop start).take len, (length_take_le _ _).trans_lt h⟩,
        input.drop (start + len))
    else throw (.bytesMissing len (input.length - start))
  else throw (.lengthNotNumber text)

def decodeBytes (input : List UInt8) : Except DecodeError (Value × List UInt8) := do
  let (b, rest) ← decodeSlice input
  return (.bytes b, rest)

/-- The items of a list up to its end. A value takes a byte, so that there are no more rounds than
bytes. -/
def listLoop (one : List UInt8 → Except DecodeError (Value × List UInt8)) :
    ℕ → List UInt8 → List Value → Except DecodeError (Value × List UInt8)
  | 0, _, _ => .error .listUnterminated
  | _ + 1, [], _ => .error .listUnterminated
  | rounds + 1, b :: bs, items =>
    if b = 101 then .ok (.list items, bs)
    else do
      let (v, tail) ← one (b :: bs)
      listLoop one rounds tail (items ++ [v])

def dictLoop (one : List UInt8 → Except DecodeError (Value × List UInt8)) :
    ℕ → List UInt8 → List (Slice × Value) → Except DecodeError (Value × List UInt8)
  | 0, _, _ => .error .dictUnterminated
  | _ + 1, [], _ => .error .dictUnterminated
  | rounds + 1, b :: bs, entries =>
    if b = 101 then .ok (.dict entries, bs)
    else do
      let (k, tail) ← decodeSlice (b :: bs)
      if k ∈ entries.map Prod.fst then throw (.duplicateKey k.val)
      let (v, tail) ← one tail
      dictLoop one rounds tail (entries ++ [(k, v)])

/-- One value, by the number of levels still allowed: at the depth `d` these are
`maxDepth + 1 - d`. -/
def decodeValue : ℕ → List UInt8 → Except DecodeError (Value × List UInt8)
  | 0, _ => .error .nestedDeeper
  | _ + 1, [] => .error .unexpectedEnd
  | levels + 1, tag :: bs =>
    if tag = 105 then decodeInt (tag :: bs)
    else if tag = 108 then listLoop (decodeValue levels) (bs.length + 1) bs []
    else if tag = 100 then dictLoop (decodeValue levels) (bs.length + 1) bs []
    else if Decimal.isDigit tag then decodeBytes (tag :: bs)
    else .error (.noValue tag)

def decode (input : List UInt8) : Except DecodeError Value := do
  let (v, rest) ← decodeValue (maxDepth + 1) input
  if rest ≠ [] then throw (.trailing rest.length)
  return v

/-! ## Well-formed values -/

mutual

def nesting : Value → ℕ
  | .int _ => 0
  | .bytes _ => 0
  | .list items => nestingItems items
  | .dict entries => nestingEntries entries

def nestingItems : List Value → ℕ
  | [] => 0
  | v :: vs => max (nesting v + 1) (nestingItems vs)

def nestingEntries : List (Slice × Value) → ℕ
  | [] => 0
  | (_, v) :: es => max (nesting v + 1) (nestingEntries es)

end

mutual

def DistinctKeys : Value → Prop
  | .int _ => True
  | .bytes _ => True
  | .list items => DistinctItems items
  | .dict entries => (entries.map Prod.fst).Nodup ∧ DistinctEntries entries

def DistinctItems : List Value → Prop
  | [] => True
  | v :: vs => DistinctKeys v ∧ DistinctItems vs

def DistinctEntries : List (Slice × Value) → Prop
  | [] => True
  | (_, v) :: es => DistinctKeys v ∧ DistinctEntries es

end

/-! ## Numbers -/

variable {x : UInt8} {text : List UInt8}

theorem idxOf?_append_cons {a : List UInt8} (h : x ∉ a) (b : List UInt8) :
    (a ++ x :: b).idxOf? x = some a.length := by
  rw [List.idxOf?_eq_some_iff]
  refine ⟨by simp, by simp, fun j hj heq => h ?_⟩
  rw [getElem_append_left hj] at heq
  rw [← heq]
  exact getElem_mem hj

variable {b : UInt8} {bs input digits : List UInt8} {v : Value}

theorem eq_append_of_idxOf? {i : ℕ} (h : bs.idxOf? x = some i) :
    bs = bs.take i ++ x :: bs.drop (i + 1) ∧ x ∉ bs.take i ∧ (bs.take i).length = i := by
  obtain ⟨hi, hx, hbefore⟩ := List.idxOf?_eq_some_iff.mp h
  refine ⟨?_, ?_, by simp; omega⟩
  · rw [← hx, cons_getElem_drop_succ, take_append_drop]
  · intro hmem
    obtain ⟨j, hj, heq⟩ := mem_iff_getElem.mp hmem
    rw [getElem_take] at heq
    exact hbefore j (by simp at hj; omega) heq

theorem lt_of_isDigit (h : Decimal.isDigit b = true) : b < 0x80 := by
  have hb := Decimal.isDigit_iff.mp h
  rw [UInt8.lt_iff_toNat_lt]
  exact hb.2.trans_lt (by decide)

theorem decode_ne_none (h : ∀ b ∈ text, Decimal.isDigit b = true ∨ b = 45) :
    Utf8.decode text ≠ none := by
  rw [Utf8.decode_low]
  · exact Option.some_ne_none _
  · intro b hb
    rcases h b hb with hdigit | rfl
    · exact lt_of_isDigit hdigit
    · decide

theorem not_mem_of_isDigit (hx : Decimal.isDigit x = false)
    (h : ∀ b ∈ text, Decimal.isDigit b = true) : x ∉ text := by
  intro hmem
  have hdigit := h x hmem
  rw [hx] at hdigit
  cases hdigit

theorem canonical_of_checks (hne : text ≠ [] ∧ text.all Decimal.isDigit = true)
    (hlead : text = [48] ∨ text.head? ≠ some 48) : Decimal.Canonical text :=
  ⟨hne.1, List.all_eq_true.mp hne.2, hlead⟩

/-! ## Byte strings -/

theorem decodeSlice_encodeBytes (b : Slice) (rest : List UInt8) :
    decodeSlice (encodeBytes b ++ rest) = .ok (b, rest) := by
  have hc := Decimal.canonical_spell b.val.length
  have hcolon : (58 : UInt8) ∉ Decimal.spell b.val.length :=
    not_mem_of_isDigit (by decide) hc.isDigit
  have hinput : encodeBytes b ++ rest = Decimal.spell b.val.length ++ 58 :: (b.val ++ rest) := by
    rw [encodeBytes, append_assoc, cons_append]
  have hstart : ((Decimal.spell b.val.length ++ 58 :: (b.val ++ rest)).drop
      ((Decimal.spell b.val.length).length + 1)) = b.val ++ rest := by
    rw [← drop_drop, drop_left]
    rfl
  rw [hinput]
  simp only [decodeSlice, idxOf?_append_cons hcolon, take_left, Decimal.value_spell]
  rw [if_neg (decode_ne_none (fun b hb => .inl (hc.isDigit b hb))),
    if_neg (not_not.mpr ⟨hc.ne_nil, List.all_eq_true.mpr hc.isDigit⟩),
    if_neg (not_not.mpr hc.leading), dif_pos b.property, if_pos (by simp; omega)]
  refine congrArg Except.ok (Prod.ext (Subtype.ext ?_) ?_)
  · change List.take b.val.length (List.drop _ _) = b.val
    rw [hstart, take_left]
  · change List.drop _ _ = rest
    rw [← drop_drop, hstart, drop_left]

theorem eq_append_of_decodeSlice {b : Slice} {rest : List UInt8}
    (h : decodeSlice input = .ok (b, rest)) : input = encodeBytes b ++ rest := by
  unfold decodeSlice at h
  split at h
  case h_2 => cases h
  case h_1 colon hcolon =>
    obtain ⟨hinput, -, htext⟩ := eq_append_of_idxOf? hcolon
    dsimp only at h
    split at h
    case isTrue => cases h
    split at h
    case isTrue => cases h
    case isFalse hdigits =>
    split at h
    case isTrue => cases h
    case isFalse hlead =>
    split at h
    case isFalse => cases h
    case isTrue hword =>
    split at h
    case isFalse => cases h
    case isTrue hfits =>
    have hc := canonical_of_checks (not_not.mp hdigits) (not_not.mp hlead)
    obtain ⟨hb, hrest⟩ := Prod.mk.inj (Except.ok.inj h)
    have hval : (input.drop (colon + 1)).take (Decimal.value (input.take colon)) = b.val :=
      congrArg Subtype.val hb
    have hlen : b.val.length = Decimal.value (input.take colon) := by
      rw [← hval, length_take, length_drop]
      omega
    have hbehind : (input.drop (colon + 1)).drop (Decimal.value (input.take colon)) = rest := by
      rw [drop_drop]
      exact hrest
    rw [encodeBytes, hlen, Decimal.spell_value hc, ← hval, ← hbehind, append_assoc,
      cons_append, take_append_drop]
    exact hinput

/-! ## Integers -/

theorem mem_intText {n : Int64} (h : b ∈ intText n) : Decimal.isDigit b = true ∨ b = 45 := by
  have hc := Decimal.canonical_spell n.toInt.natAbs
  unfold intText at h
  split at h
  · rcases mem_cons.mp h with rfl | h
    · exact .inr rfl
    · exact .inl (hc.isDigit b h)
  · exact .inl (hc.isDigit b h)

theorem head?_spell {n : ℕ} (h : n ≠ 0) : (Decimal.spell n).head? ≠ some 48 := by
  rcases (Decimal.canonical_spell n).leading with hzero | hlead
  · have hvalue := Decimal.value_spell n
    rw [hzero] at hvalue
    exact absurd hvalue.symm h
  · exact hlead

theorem head?_ne_sign (h : ∀ b ∈ text, Decimal.isDigit b = true) : text.head? ≠ some 45 := by
  intro hhead
  have hdigit := h 45 (mem_of_head? hhead)
  revert hdigit
  decide

theorem decodeInt_encodeInt (n : Int64) (rest : List UInt8) :
    decodeInt (encodeInt n ++ rest) = .ok (.int n, rest) := by
  have hc := Decimal.canonical_spell n.toInt.natAbs
  have hstop : (101 : UInt8) ∉ intText n := by
    intro hmem
    have hcase := mem_intText hmem
    revert hcase
    decide
  have hinput : (encodeInt n ++ rest).drop 1 = intText n ++ 101 :: rest := by
    rw [encodeInt, cons_append, drop_one, tail_cons, append_assoc]
    rfl
  have hbehind : (intText n ++ 101 :: rest).drop ((intText n).length + 1) = rest := by
    rw [← drop_drop, drop_left]
    rfl
  have hrange : -2 ^ 63 ≤ n.toInt ∧ n.toInt < 2 ^ 63 := ⟨n.le_toInt, n.toInt_lt⟩
  have hback : Int64.ofInt n.toInt = n :=
    Int64.toInt.inj (Int64.toInt_ofInt_of_le hrange.1 hrange.2)
  simp only [decodeInt, hinput, idxOf?_append_cons hstop, take_left, hbehind]
  rw [if_neg (decode_ne_none (fun b hb => mem_intText hb))]
  by_cases hneg : n.toInt < 0
  · have htext : intText n = 45 :: Decimal.spell n.toInt.natAbs := if_pos hneg
    have hlead : (Decimal.spell n.toInt.natAbs).head? ≠ some 48 := head?_spell (by omega)
    have hzero : ¬ [45, 48].isPrefixOf (45 :: Decimal.spell n.toInt.natAbs) = true := by
      intro hprefix
      have hhead := ( isPrefixOf_iff_prefix.mp hprefix)
      rw [cons_prefix_cons] at hhead
      obtain ⟨t, ht⟩ := hhead.2
      exact hlead (by rw [← ht]; rfl)
    have hmagnitude : -(n.toInt.natAbs : ℤ) = n.toInt := by omega
    simp only [htext, List.head?_cons, if_true, drop_succ_cons, drop_zero,
      Decimal.value_spell, hmagnitude]
    rw [if_neg (cons_ne_nil _ _), if_neg (not_not.mpr ⟨hc.ne_nil, List.all_eq_true.mpr hc.isDigit⟩),
      if_neg (not_not.mpr (.inr ⟨by decide, hzero⟩)), if_neg (not_not.mpr hrange), hback]
    rfl
  · have htext : intText n = Decimal.spell n.toInt.natAbs := if_neg hneg
    have hsign := head?_ne_sign hc.isDigit
    have hzero : ¬ [45, 48].isPrefixOf (Decimal.spell n.toInt.natAbs) = true := by
      intro hprefix
      obtain ⟨t, ht⟩ := isPrefixOf_iff_prefix.mp hprefix
      exact hsign (by rw [← ht]; rfl)
    have hmagnitude : (n.toInt.natAbs : ℤ) = n.toInt := by omega
    simp only [htext, if_neg hsign, Decimal.value_spell, hmagnitude]
    rw [if_neg hc.ne_nil, if_neg (not_not.mpr ⟨hc.ne_nil, List.all_eq_true.mpr hc.isDigit⟩),
      if_neg (not_not.mpr (hc.leading.imp_right (fun h => ⟨h, hzero⟩))),
      if_neg (not_not.mpr hrange), hback]
    rfl

theorem intText_neg (hc : Decimal.Canonical digits) (hlead : digits.head? ≠ some 48)
    (hrange : -2 ^ 63 ≤ -(Decimal.value digits : ℤ) ∧ -(Decimal.value digits : ℤ) < 2 ^ 63) :
    intText (Int64.ofInt (-(Decimal.value digits : ℤ))) = 45 :: digits := by
  have hpos : Decimal.value digits ≠ 0 := by
    intro hzero
    have hspell := Decimal.spell_value hc
    rw [hzero] at hspell
    exact hlead (by rw [← hspell]; rfl)
  rw [intText, Int64.toInt_ofInt_of_le hrange.1 hrange.2, if_pos (by omega), Int.natAbs_neg,
    Int.natAbs_natCast, Decimal.spell_value hc]

theorem intText_nonneg (hc : Decimal.Canonical digits)
    (hrange : -2 ^ 63 ≤ (Decimal.value digits : ℤ) ∧ (Decimal.value digits : ℤ) < 2 ^ 63) :
    intText (Int64.ofInt (Decimal.value digits : ℤ)) = digits := by
  rw [intText, Int64.toInt_ofInt_of_le hrange.1 hrange.2, if_neg (by omega), Int.natAbs_natCast,
    Decimal.spell_value hc]

theorem eq_append_of_decodeInt {rest : List UInt8} (h : decodeInt (105 :: bs) = .ok (v, rest)) :
    105 :: bs = encode v ++ rest := by
  unfold decodeInt at h
  generalize hbody : List.drop 1 (105 :: bs) = body at h
  obtain rfl : bs = body := hbody
  dsimp only at h
  split at h
  case h_2 => cases h
  case h_1 stop hstop =>
    obtain ⟨hbs, -, -⟩ := eq_append_of_idxOf? hstop
    generalize bs.take stop = text at h hbs
    suffices hsuffices : ∃ n, v = .int n ∧ intText n = text ∧ bs.drop (stop + 1) = rest by
      obtain ⟨n, rfl, htext, hrest⟩ := hsuffices
      rw [encode, encodeInt, htext, hbs, hrest, cons_append, append_assoc]
      rfl
    by_cases hsign : text.head? = some 45
    · simp only [if_pos hsign] at h
      obtain ⟨digits, rfl⟩ : ∃ digits, text = 45 :: digits := List.head?_eq_some_iff.mp hsign
      rw [if_neg (cons_ne_nil _ _)] at h
      split at h
      case isTrue => cases h
      split at h
      case isTrue => cases h
      case isFalse hdigits =>
      split at h
      case isTrue => cases h
      case isFalse hlead =>
      split at h
      case isTrue => cases h
      case isFalse hrange =>
      obtain ⟨hv, hrest⟩ := Prod.mk.inj (Except.ok.inj h)
      have hhead : digits.head? ≠ some 48 := by
        intro hhead
        obtain ⟨t, rfl⟩ := List.head?_eq_some_iff.mp hhead
        rcases not_not.mp hlead with hzero | ⟨-, hprefix⟩
        · cases hzero
        · exact hprefix rfl
      have hc := canonical_of_checks (not_not.mp hdigits) (.inr hhead)
      exact ⟨_, hv.symm, intText_neg hc hhead (not_not.mp hrange), hrest⟩
    · simp only [if_neg hsign] at h
      split at h
      case isTrue => cases h
      split at h
      case isTrue => cases h
      split at h
      case isTrue => cases h
      case isFalse hdigits =>
      split at h
      case isTrue => cases h
      case isFalse hlead =>
      split at h
      case isTrue => cases h
      case isFalse hrange =>
      obtain ⟨hv, hrest⟩ := Prod.mk.inj (Except.ok.inj h)
      have hc := canonical_of_checks (not_not.mp hdigits) ((not_not.mp hlead).imp_right And.left)
      exact ⟨_, hv.symm, intText_nonneg hc (not_not.mp hrange), hrest⟩

/-! ## Lists and dictionaries -/

theorem exists_encode_cons (v : Value) : ∃ b bs, encode v = b :: bs ∧ b ≠ 101 := by
  cases v with
  | int n => exact ⟨_, _, rfl, by decide⟩
  | bytes b =>
    obtain ⟨c, cs, hcs⟩ := exists_cons_of_ne_nil (Decimal.canonical_spell b.val.length).ne_nil
    have hdigit := (Decimal.canonical_spell b.val.length).isDigit c (by simp [hcs])
    refine ⟨c, cs ++ 58 :: b.val, by rw [encode, encodeBytes, hcs, cons_append], ?_⟩
    rintro rfl
    revert hdigit
    decide
  | list items => exact ⟨_, _, rfl, by decide⟩
  | dict entries => exact ⟨_, _, rfl, by decide⟩

theorem length_le_encodeItems : ∀ items : List Value, items.length ≤ (encodeItems items).length
  | [] => Nat.zero_le _
  | v :: vs => by
    obtain ⟨b, bs, hb, -⟩ := exists_encode_cons v
    have ih := length_le_encodeItems vs
    rw [encodeItems, hb]
    simp only [length_cons, length_append]
    omega

theorem length_le_encodeEntries :
    ∀ entries : List (Slice × Value), entries.length ≤ (encodeEntries entries).length
  | [] => Nat.zero_le _
  | (k, v) :: es => by
    obtain ⟨b, bs, hb, -⟩ := exists_encode_cons v
    have ih := length_le_encodeEntries es
    rw [encodeEntries, hb]
    simp only [length_cons, length_append]
    omega

section Loops

variable {one : List UInt8 → Except DecodeError (Value × List UInt8)}

theorem listLoop_encodeItems :
    ∀ {items : List Value}, (∀ v ∈ items, ∀ rest, one (encode v ++ rest) = .ok (v, rest)) →
      ∀ {rounds : ℕ}, items.length < rounds → ∀ acc rest,
        listLoop one rounds (encodeItems items ++ 101 :: rest) acc
          = .ok (.list (acc ++ items), rest)
  | _, _, 0, hrounds, _, _ => absurd hrounds (Nat.not_lt_zero _)
  | [], _, rounds + 1, _, acc, rest => by simp [encodeItems, listLoop]
  | v :: vs, hone, rounds + 1, hrounds, acc, rest => by
    obtain ⟨b, bs, hb, hne⟩ := exists_encode_cons v
    have hv := hone v (mem_cons_self) (encodeItems vs ++ 101 :: rest)
    have ih := listLoop_encodeItems (fun w hw => hone w (mem_cons_of_mem _ hw))
      (Nat.lt_of_succ_lt_succ hrounds) (acc ++ [v]) rest
    rw [hb, cons_append] at hv
    rw [encodeItems, hb, append_assoc, cons_append, listLoop, if_neg hne, hv]
    change listLoop one rounds _ _ = _
    rw [ih, append_assoc]
    rfl

theorem dictLoop_encodeEntries :
    ∀ {entries : List (Slice × Value)},
      (∀ e ∈ entries, ∀ rest, one (encode e.2 ++ rest) = .ok (e.2, rest)) →
      ∀ {rounds : ℕ}, entries.length < rounds → ∀ acc rest, ((acc ++ entries).map Prod.fst).Nodup →
        dictLoop one rounds (encodeEntries entries ++ 101 :: rest) acc
          = .ok (.dict (acc ++ entries), rest)
  | _, _, 0, hrounds, _, _, _ => absurd hrounds (Nat.not_lt_zero _)
  | [], _, rounds + 1, _, acc, rest, _ => by simp [encodeEntries, dictLoop]
  | (k, v) :: es, hone, rounds + 1, hrounds, acc, rest, hnodup => by
    obtain ⟨b, bs, hb, hne⟩ := exists_encode_cons (.bytes k)
    have hv := hone (k, v) (mem_cons_self) (encodeEntries es ++ 101 :: rest)
    have hk := decodeSlice_encodeBytes k (encode v ++ (encodeEntries es ++ 101 :: rest))
    have hnew : k ∉ acc.map Prod.fst := by
      intro hmem
      rw [map_append, nodup_append] at hnodup
      exact hnodup.2.2 k hmem k (by simp) rfl
    have ih := dictLoop_encodeEntries (fun e he => hone e (mem_cons_of_mem _ he))
      (Nat.lt_of_succ_lt_succ hrounds) (acc ++ [(k, v)]) rest
      (by rw [append_assoc]; exact hnodup)
    rw [encode] at hb
    rw [hb, cons_append] at hk
    rw [encodeEntries, hb, append_assoc, append_assoc, cons_append, dictLoop, if_neg hne, hk]
    change (if k ∈ acc.map Prod.fst then _ else one _ >>= _) = _
    rw [if_neg hnew, hv]
    change dictLoop one rounds _ _ = _
    rw [ih, append_assoc]
    rfl

variable (hone : ∀ {input v rest}, one input = .ok (v, rest) → input = encode v ++ rest)

include hone

theorem eq_append_of_listLoop :
    ∀ {rounds : ℕ} {input : List UInt8} {acc : List Value} {v : Value} {rest : List UInt8},
      listLoop one rounds input acc = .ok (v, rest) →
      ∃ items, v = .list (acc ++ items) ∧ input = encodeItems items ++ 101 :: rest
  | 0, _, _, _, _, h => by cases h
  | _ + 1, [], _, _, _, h => by cases h
  | rounds + 1, b :: bs, acc, v, rest, h => by
    rw [listLoop] at h
    split at h
    case isTrue hb =>
      obtain ⟨rfl, rfl⟩ := Prod.mk.inj (Except.ok.inj h)
      exact ⟨[], by rw [append_nil], by rw [hb]; rfl⟩
    case isFalse hb =>
      cases hitem : one (b :: bs) with
      | error e =>
        rw [hitem] at h
        cases h
      | ok read =>
        obtain ⟨w, tail⟩ := read
        rw [hitem] at h
        obtain ⟨items, rfl, htail⟩ := eq_append_of_listLoop h
        refine ⟨w :: items, by rw [append_assoc]; rfl, ?_⟩
        rw [hone hitem, htail, encodeItems, append_assoc]

theorem eq_append_of_dictLoop :
    ∀ {rounds : ℕ} {input : List UInt8} {acc : List (Slice × Value)} {v : Value}
      {rest : List UInt8}, dictLoop one rounds input acc = .ok (v, rest) →
      ∃ entries, v = .dict (acc ++ entries) ∧ input = encodeEntries entries ++ 101 :: rest
  | 0, _, _, _, _, h => by cases h
  | _ + 1, [], _, _, _, h => by cases h
  | rounds + 1, b :: bs, acc, v, rest, h => by
    rw [dictLoop] at h
    split at h
    case isTrue hb =>
      obtain ⟨rfl, rfl⟩ := Prod.mk.inj (Except.ok.inj h)
      exact ⟨[], by rw [append_nil], by rw [hb]; rfl⟩
    case isFalse hb =>
      cases hkey : decodeSlice (b :: bs) with
      | error e =>
        rw [hkey] at h
        cases h
      | ok key =>
        obtain ⟨k, behind⟩ := key
        rw [hkey] at h
        change (if k ∈ acc.map Prod.fst then _ else one behind >>= _) = _ at h
        split at h
        case isTrue => cases h
        cases hitem : one behind with
        | error e =>
          rw [hitem] at h
          cases h
        | ok read =>
          obtain ⟨w, tail⟩ := read
          rw [hitem] at h
          obtain ⟨entries, rfl, htail⟩ := eq_append_of_dictLoop h
          refine ⟨(k, w) :: entries, by rw [append_assoc]; rfl, ?_⟩
          rw [eq_append_of_decodeSlice hkey, hone hitem, htail, encodeEntries, append_assoc,
            append_assoc]

end Loops

/-! ## Whole values -/

theorem nestingItems_le_iff {n : ℕ} : ∀ {items : List Value},
    nestingItems items ≤ n ↔ ∀ v ∈ items, nesting v < n
  | [] => by simp [nestingItems]
  | v :: vs => by
    rw [nestingItems, max_le_iff, nestingItems_le_iff, forall_mem_cons]
    rfl

theorem nestingEntries_le_iff {n : ℕ} : ∀ {entries : List (Slice × Value)},
    nestingEntries entries ≤ n ↔ ∀ e ∈ entries, nesting e.2 < n
  | [] => by simp [nestingEntries]
  | (k, v) :: es => by
    rw [nestingEntries, max_le_iff, nestingEntries_le_iff, forall_mem_cons]
    rfl

theorem distinctItems_iff : ∀ {items : List Value},
    DistinctItems items ↔ ∀ v ∈ items, DistinctKeys v
  | [] => by simp [DistinctItems]
  | v :: vs => by rw [DistinctItems, distinctItems_iff, forall_mem_cons]

theorem distinctEntries_iff : ∀ {entries : List (Slice × Value)},
    DistinctEntries entries ↔ ∀ e ∈ entries, DistinctKeys e.2
  | [] => by simp [DistinctEntries]
  | (k, v) :: es => by rw [DistinctEntries, distinctEntries_iff, forall_mem_cons]

theorem decodeValue_encode : ∀ {levels : ℕ} {v : Value}, nesting v < levels → DistinctKeys v →
    ∀ rest, decodeValue levels (encode v ++ rest) = .ok (v, rest)
  | 0, _, hlevels, _, _ => absurd hlevels (Nat.not_lt_zero _)
  | levels + 1, .int n, _, _, rest => by
    have hread := decodeInt_encodeInt n rest
    rw [encode]
    rw [encodeInt, cons_append] at hread ⊢
    rw [decodeValue, if_pos rfl, hread]
  | levels + 1, .bytes b, _, _, rest => by
    obtain ⟨c, cs, hcs⟩ := exists_cons_of_ne_nil (Decimal.canonical_spell b.val.length).ne_nil
    have hdigit := (Decimal.canonical_spell b.val.length).isDigit c (by simp [hcs])
    have hread := decodeSlice_encodeBytes b rest
    have hne : ∀ x : UInt8, Decimal.isDigit x = false → c ≠ x := by
      rintro x hx rfl
      rw [hdigit] at hx
      cases hx
    rw [encode]
    rw [encodeBytes, hcs, cons_append, cons_append] at hread ⊢
    rw [decodeValue, if_neg (hne 105 (by decide)), if_neg (hne 108 (by decide)),
      if_neg (hne 100 (by decide)), if_pos hdigit, decodeBytes, hread]
    rfl
  | levels + 1, .list items, hlevels, hd, rest => by
    rw [nesting, Nat.lt_succ_iff, nestingItems_le_iff] at hlevels
    rw [DistinctKeys, distinctItems_iff] at hd
    have hone : ∀ v ∈ items, ∀ rest, decodeValue levels (encode v ++ rest) = .ok (v, rest) :=
      fun v hv => decodeValue_encode (hlevels v hv) (hd v hv)
    have hlen := length_le_encodeItems items
    rw [encode, cons_append, append_assoc, singleton_append, decodeValue,
      if_neg (by decide), if_pos rfl,
      listLoop_encodeItems hone (by rw [length_append]; omega), nil_append]
  | levels + 1, .dict entries, hlevels, hd, rest => by
    rw [nesting, Nat.lt_succ_iff, nestingEntries_le_iff] at hlevels
    rw [DistinctKeys, distinctEntries_iff] at hd
    have hone : ∀ e ∈ entries, ∀ rest, decodeValue levels (encode e.2 ++ rest) = .ok (e.2, rest) :=
      fun e he => decodeValue_encode (hlevels e he) (hd.2 e he)
    have hlen := length_le_encodeEntries entries
    rw [encode, cons_append, append_assoc, singleton_append, decodeValue,
      if_neg (by decide), if_neg (by decide), if_pos rfl,
      dictLoop_encodeEntries hone (by rw [length_append]; omega) [] _ hd.1, nil_append]

theorem eq_append_of_decodeValue : ∀ {levels : ℕ} {input : List UInt8} {v : Value}
    {rest : List UInt8}, decodeValue levels input = .ok (v, rest) → input = encode v ++ rest
  | 0, _, _, _, h => by cases h
  | _ + 1, [], _, _, h => by cases h
  | levels + 1, tag :: bs, v, rest, h => by
    rw [decodeValue] at h
    split at h
    case isTrue htag =>
      subst htag
      exact eq_append_of_decodeInt h
    split at h
    case isTrue htag =>
      obtain ⟨items, rfl, hbs⟩ := eq_append_of_listLoop eq_append_of_decodeValue h
      rw [encode, htag, hbs, nil_append, cons_append, append_assoc]
      rfl
    split at h
    case isTrue htag =>
      obtain ⟨entries, rfl, hbs⟩ := eq_append_of_dictLoop eq_append_of_decodeValue h
      rw [encode, htag, hbs, nil_append, cons_append, append_assoc]
      rfl
    split at h
    case isFalse => cases h
    rw [decodeBytes] at h
    cases hread : decodeSlice (tag :: bs) with
    | error e =>
      rw [hread] at h
      cases h
    | ok read =>
      rw [hread] at h
      obtain ⟨rfl, rfl⟩ := Prod.mk.inj (Except.ok.inj h)
      rw [eq_append_of_decodeSlice hread, encode]

theorem decode_eq_ok : decode input = .ok v ↔ decodeValue (maxDepth + 1) input = .ok (v, []) := by
  unfold decode
  cases decodeValue (maxDepth + 1) input with
  | error e => exact ⟨fun h => (by cases h), fun h => (by cases h)⟩
  | ok read =>
    obtain ⟨w, rest⟩ := read
    change (if rest ≠ [] then _ else _) = _ ↔ _
    by_cases hrest : rest = []
    · rw [if_neg (not_not.mpr hrest), hrest]
      exact ⟨fun h => (by cases h; rfl), fun h => (by cases h; rfl)⟩
    · rw [if_pos hrest]
      exact ⟨fun h => (by cases h), fun h => absurd (Prod.mk.inj (Except.ok.inj h)).2 hrest⟩

/-- A value that nests no deeper than the bound, with distinct keys, is read back from its encoding,
and what the decoder accepts is the encoding of what it returns. -/
theorem value_has_one_spelling :
    (∀ v : Value, nesting v ≤ maxDepth → DistinctKeys v → decode (encode v) = .ok v)
      ∧ ∀ (input : List UInt8) (v : Value), decode input = .ok v → encode v = input := by
  refine ⟨fun v hnesting hd => ?_, fun input v h => ?_⟩
  · have hread := decodeValue_encode (Nat.lt_succ_of_le hnesting) hd []
    rw [append_nil] at hread
    exact decode_eq_ok.mpr hread
  · have hinput := eq_append_of_decodeValue (decode_eq_ok.mp h)
    rw [append_nil] at hinput
    exact hinput.symm

def unsortedMessage : Value :=
  .dict [(⟨[116, 111], by decide⟩, .list [.int (-5), .dict []]), (⟨[97], by decide⟩, .int 0)]

theorem unsortedMessage_has_one_spelling :
    decode (encode unsortedMessage) = .ok unsortedMessage ∧ nesting unsortedMessage = 2 := by
  refine ⟨value_has_one_spelling.1 unsortedMessage ?_ ?_, ?_⟩
  · decide
  · simp [unsortedMessage, DistinctKeys, DistinctEntries, DistinctItems]
  · decide

theorem decode_encodeDict {entries : List (Slice × Value)}
    (hnesting : nesting (.dict entries) ≤ maxDepth) (hd : DistinctKeys (.dict entries)) :
    decode (encodeDict entries) = .ok (.dict (sortedByKey entries)) := by
  have hperm : (sortedByKey entries).Perm entries := mergeSort_perm _ _
  rw [nesting, nestingEntries_le_iff] at hnesting
  rw [DistinctKeys, distinctEntries_iff] at hd
  have hsorted : nesting (.dict (sortedByKey entries)) < maxDepth + 1 := by
    rw [nesting, Nat.lt_succ_iff, nestingEntries_le_iff]
    exact fun e he => hnesting e (hperm.mem_iff.mp he)
  have hkeys : DistinctKeys (.dict (sortedByKey entries)) := by
    rw [DistinctKeys, distinctEntries_iff]
    exact ⟨(hperm.map Prod.fst).nodup_iff.mpr hd.1, fun e he => hd.2 e (hperm.mem_iff.mp he)⟩
  have hread := decodeValue_encode hsorted hkeys []
  rw [append_nil] at hread
  exact decode_eq_ok.mpr hread

theorem decode_encodeDict_unsorted : ∃ entries, unsortedMessage = .dict entries ∧
    decode (encodeDict entries) = .ok (.dict (sortedByKey entries)) := by
  refine ⟨_, rfl, decode_encodeDict ?_ ?_⟩
  · decide
  · simp [DistinctKeys, DistinctEntries, DistinctItems]

end Sipnab.Relay.Bencode
