import Mathlib

/-!
# UTF-8

Text read from bytes, one byte at a time. A sequence that is longer than its character needs, that
names no character, or that is cut short makes the whole text unreadable. A byte below `0x80` stands
for itself and for nothing else, so text can be cut at such a byte before or after it is read.
-/

namespace Sipnab.Utf8

open List Option

/-- A character of which `rest + 1` more bytes have to come. -/
structure Partial where
  rest : ℕ
  least : ℕ
  code : ℕ
  least_ge : 0x80 ≤ least

def leadByte (b : UInt8) : Option Partial :=
  if 0xC0 ≤ b ∧ b < 0xE0 then some ⟨0, 0x80, b.toNat - 0xC0, by decide⟩
  else if 0xE0 ≤ b ∧ b < 0xF0 then some ⟨1, 0x800, b.toNat - 0xE0, by decide⟩
  else if 0xF0 ≤ b ∧ b < 0xF8 then some ⟨2, 0x10000, b.toNat - 0xF0, by decide⟩
  else none

def ofByte (b : UInt8) : Char := Char.ofNat b.toNat

theorem toNat_ofByte (b : UInt8) : (ofByte b).toNat = b.toNat := by
  have hvalid : b.toNat.isValidChar := by
    have hlt := b.toNat_lt
    exact Or.inl (by omega)
  rw [ofByte, Char.ofNat, dif_pos hvalid]
  rfl

def encodeChar (c : Char) : List UInt8 :=
  let n := c.toNat
  if n < 0x80 then [UInt8.ofNat n]
  else if n < 0x800 then [UInt8.ofNat (0xC0 + n / 64), UInt8.ofNat (0x80 + n % 64)]
  else if n < 0x10000 then
    [UInt8.ofNat (0xE0 + n / 4096), UInt8.ofNat (0x80 + n / 64 % 64), UInt8.ofNat (0x80 + n % 64)]
  else
    [UInt8.ofNat (0xF0 + n / 262144), UInt8.ofNat (0x80 + n / 4096 % 64),
      UInt8.ofNat (0x80 + n / 64 % 64), UInt8.ofNat (0x80 + n % 64)]

def decodeFrom : Option Partial → List UInt8 → Option (List Char)
  | none, [] => some []
  | some _, [] => none
  | none, b :: bs =>
    if b < 0x80 then (decodeFrom none bs).map (fun cs => ofByte b :: cs)
    else match leadByte b with
      | some q => decodeFrom (some q) bs
      | none => none
  | some q, b :: bs =>
    if 0x80 ≤ b ∧ b < 0xC0 then
      let code := 64 * q.code + (b.toNat - 0x80)
      match q.rest with
      | 0 =>
        if h : q.least ≤ code ∧ code.isValidChar then
          (decodeFrom none bs).map (fun cs => Char.ofNatAux code h.2 :: cs)
        else none
      | n + 1 => decodeFrom (some { q with rest := n, code }) bs
    else none

def decode (bs : List UInt8) : Option (List Char) := decodeFrom none bs

theorem map_cons_bind (ch c : Char) (x y : Option (List Char)) :
    (x.bind (fun xs => y.map (fun ys => xs ++ c :: ys))).map (fun cs => ch :: cs) =
      (x.map (fun cs => ch :: cs)).bind (fun xs => y.map (fun ys => xs ++ c :: ys)) := by
  cases x <;> cases y <;> rfl

theorem decodeFrom_append_cons {c : UInt8} (hc : c < 0x80) (q : Option Partial)
    (a b : List UInt8) :
    decodeFrom q (a ++ c :: b) =
      (decodeFrom q a).bind (fun xs => (decode b).map (fun ys => xs ++ ofByte c :: ys)) := by
  induction a generalizing q with
  | nil =>
    cases q with
    | none =>
      simp only [nil_append, decodeFrom, if_pos hc, bind_some]
      rfl
    | some q =>
      have hnot : ¬ (0x80 ≤ c ∧ c < 0xC0) := fun h => absurd h.1 (UInt8.not_le.mpr hc)
      simp only [nil_append, decodeFrom, if_neg hnot, bind_none]
  | cons x a ih =>
    cases q with
    | none =>
      rw [cons_append, decodeFrom, decodeFrom]
      split_ifs with hx
      · rw [ih, map_cons_bind]
      · cases leadByte x with
        | none => rfl
        | some q => exact ih (some q)
    | some q =>
      rw [cons_append, decodeFrom, decodeFrom]
      split_ifs with hx
      · cases hrest : q.rest with
        | zero =>
          dsimp only
          split_ifs with hvalid
          · rw [ih, map_cons_bind]
          · rfl
        | succ n => exact ih _
      · rfl

theorem decode_append_cons {c : UInt8} (hc : c < 0x80) (a b : List UInt8) :
    decode (a ++ c :: b) =
      (decode a).bind (fun xs => (decode b).map (fun ys => xs ++ ofByte c :: ys)) :=
  decodeFrom_append_cons hc none a b

variable {b : UInt8} {q : Partial} {bs : List UInt8} {cs : List Char}

theorem exists_byte_of_mem_decodeFrom {q : Option Partial} (h : decodeFrom q bs = some cs)
    {ch : Char} (hmem : ch ∈ cs) (hlow : ch.toNat < 0x80) : ∃ b ∈ bs, ofByte b = ch := by
  induction bs generalizing q cs with
  | nil =>
    cases q with
    | none =>
      rw [decodeFrom] at h
      rw [← some.inj h] at hmem
      cases hmem
    | some q => cases h
  | cons x bs ih =>
    cases q with
    | none =>
      rw [decodeFrom] at h
      split_ifs at h with hx
      · obtain ⟨rest, hrest, rfl⟩ := map_eq_some_iff.mp h
        rcases mem_cons.mp hmem with rfl | hmem
        · exact ⟨x, mem_cons_self, rfl⟩
        · obtain ⟨b, hb, hch⟩ := ih hrest hmem
          exact ⟨b, mem_cons_of_mem _ hb, hch⟩
      · cases hlead : leadByte x with
        | none =>
          rw [hlead] at h
          cases h
        | some q =>
          rw [hlead] at h
          obtain ⟨b, hb, hch⟩ := ih h hmem
          exact ⟨b, mem_cons_of_mem _ hb, hch⟩
    | some q =>
      rw [decodeFrom] at h
      split_ifs at h with hx
      cases hrest : q.rest with
      | zero =>
        rw [hrest] at h
        dsimp only at h
        split_ifs at h with hvalid
        obtain ⟨rest, hrest, rfl⟩ := map_eq_some_iff.mp h
        rcases mem_cons.mp hmem with rfl | hmem
        · -- a longer sequence stands for a character from `0x80` on
          have hge := q.least_ge
          have hcode : (Char.ofNatAux (64 * q.code + (x.toNat - 0x80)) hvalid.2).toNat =
              64 * q.code + (x.toNat - 0x80) := rfl
          rw [hcode] at hlow
          have hleast := hvalid.1
          omega
        · obtain ⟨b, hb, hch⟩ := ih hrest hmem
          exact ⟨b, mem_cons_of_mem _ hb, hch⟩
      | succ n =>
        rw [hrest] at h
        obtain ⟨b, hb, hch⟩ := ih h hmem
        exact ⟨b, mem_cons_of_mem _ hb, hch⟩

/-! ## Text read whatever the bytes are -/

/-- A character of which `rest + 1` more bytes have to come, the next one between `low` and
`high`. -/
structure Awaited where
  rest : ℕ
  low : UInt8
  high : UInt8
  code : ℕ

/-- The first byte of a longer sequence, with the second bytes that may follow it. -/
def lossyLead (b : UInt8) : Option Awaited :=
  if 0xC2 ≤ b ∧ b ≤ 0xDF then some ⟨0, 0x80, 0xBF, b.toNat - 0xC0⟩
  else if b = 0xE0 then some ⟨1, 0xA0, 0xBF, 0⟩
  else if b = 0xED then some ⟨1, 0x80, 0x9F, 0xD⟩
  else if 0xE1 ≤ b ∧ b ≤ 0xEF then some ⟨1, 0x80, 0xBF, b.toNat - 0xE0⟩
  else if b = 0xF0 then some ⟨2, 0x90, 0xBF, 0⟩
  else if 0xF1 ≤ b ∧ b ≤ 0xF3 then some ⟨2, 0x80, 0xBF, b.toNat - 0xF0⟩
  else if b = 0xF4 then some ⟨2, 0x80, 0x8F, 4⟩
  else none

def replacement : Char := Char.ofNat 0xFFFD

/-- The text, with a mark in the place of every longest piece that no character starts with. -/
def lossyFrom : Option Awaited → List UInt8 → List Char
  | none, [] => []
  | some _, [] => [replacement]
  | none, b :: bs =>
    if b < 0x80 then ofByte b :: lossyFrom none bs
    else match lossyLead b with
      | some q => lossyFrom (some q) bs
      | none => replacement :: lossyFrom none bs
  | some q, b :: bs =>
    if q.low ≤ b ∧ b ≤ q.high then
      let code := 64 * q.code + (b.toNat - 0x80)
      match q.rest with
      | 0 => Char.ofNat code :: lossyFrom none bs
      | n + 1 => lossyFrom (some ⟨n, 0x80, 0xBF, code⟩) bs
    -- the piece ends here, and the byte starts anew
    else if b < 0x80 then replacement :: ofByte b :: lossyFrom none bs
    else match lossyLead b with
      | some q => replacement :: lossyFrom (some q) bs
      | none => replacement :: replacement :: lossyFrom none bs

def fromUtf8Lossy (bs : List UInt8) : List Char := lossyFrom none bs

theorem exists_code_of_decodeFrom (h : decodeFrom (some q) bs = some cs) :
    ∃ code, 64 ^ (q.rest + 1) * q.code ≤ code ∧ code < 64 ^ (q.rest + 1) * (q.code + 1) ∧
      q.least ≤ code ∧ code.isValidChar := by
  induction bs generalizing q cs with
  | nil => cases h
  | cons b bs ih =>
    rw [decodeFrom] at h
    split_ifs at h with hb
    have hlow : 0x80 ≤ b.toNat := hb.1
    have hhigh : b.toNat < 0xC0 := hb.2
    cases hrest : q.rest with
    | zero =>
      rw [hrest] at h
      dsimp only at h
      split_ifs at h with hvalid
      refine ⟨64 * q.code + (b.toNat - 0x80), ?_, ?_, hvalid.1, hvalid.2⟩ <;>
        rw [zero_add, pow_one] <;> omega
    | succ n =>
      rw [hrest] at h
      obtain ⟨code, hge, hlt, hleast, hvalid⟩ := ih h
      refine ⟨code, ?_, ?_, hleast, hvalid⟩
      · rw [pow_succ]
        calc 64 ^ (n + 1) * 64 * q.code = 64 ^ (n + 1) * (64 * q.code) := by ring
          _ ≤ 64 ^ (n + 1) * (64 * q.code + (b.toNat - 0x80)) :=
            Nat.mul_le_mul_left _ (Nat.le_add_right _ _)
          _ ≤ code := hge
      · rw [pow_succ]
        calc code < 64 ^ (n + 1) * (64 * q.code + (b.toNat - 0x80) + 1) := hlt
          _ ≤ 64 ^ (n + 1) * (64 * (q.code + 1)) := Nat.mul_le_mul_left _ (by omega)
          _ = 64 ^ (n + 1) * 64 * (q.code + 1) := by ring

theorem exists_head_of_decodeFrom (h : decodeFrom (some q) bs = some cs) :
    ∃ c rest, cs = c :: rest ∧ 0x80 ≤ c.toNat := by
  induction bs generalizing q with
  | nil => cases h
  | cons b bs ih =>
    rw [decodeFrom] at h
    split_ifs at h with hb
    cases hrest : q.rest with
    | zero =>
      rw [hrest] at h
      dsimp only at h
      split_ifs at h with hvalid
      obtain ⟨rest, -, rfl⟩ := map_eq_some_iff.mp h
      exact ⟨_, rest, rfl, le_trans q.least_ge hvalid.1⟩
    | succ n =>
      rw [hrest] at h
      exact ih h

theorem head?_decode (h : decode (b :: bs) = some cs) :
    ∃ c rest, cs = c :: rest ∧ (b < 0x80 ∧ c = ofByte b ∨ 0x80 ≤ b ∧ 0x80 ≤ c.toNat) := by
  rw [decode, decodeFrom] at h
  split_ifs at h with hb
  · obtain ⟨rest, -, rfl⟩ := map_eq_some_iff.mp h
    exact ⟨_, rest, rfl, Or.inl ⟨hb, rfl⟩⟩
  · cases hlead : leadByte b with
    | none =>
      rw [hlead] at h
      cases h
    | some q =>
      rw [hlead] at h
      obtain ⟨c, rest, hcs, hc⟩ := exists_head_of_decodeFrom h
      exact ⟨c, rest, hcs, Or.inr ⟨UInt8.not_lt.mp hb, hc⟩⟩

theorem eq_nil_of_decode (h : decode bs = some []) : bs = [] := by
  cases bs with
  | nil => rfl
  | cons b bs =>
    obtain ⟨c, rest, hcs, -⟩ := head?_decode h
    cases hcs

theorem ofNat_toNat_ofByte (b : UInt8) : UInt8.ofNat (ofByte b).toNat = b := by
  rw [toNat_ofByte, UInt8.ofNat_toNat]

theorem exists_split_of_decodeFrom {q : Option Partial} {xs ys : List Char} {c : Char}
    (hc : c.toNat < 0x80) (h : decodeFrom q bs = some (xs ++ c :: ys)) :
    ∃ a b, bs = a ++ UInt8.ofNat c.toNat :: b ∧ decodeFrom q a = some xs ∧ decode b = some ys := by
  induction bs generalizing q xs with
  | nil =>
    cases q with
    | none =>
      rw [decodeFrom] at h
      simp at h
    | some q => cases h
  | cons x bs ih =>
    cases q with
    | none =>
      rw [decodeFrom] at h
      split_ifs at h with hx
      · obtain ⟨cs, hcs, hlist⟩ := map_eq_some_iff.mp h
        cases xs with
        | nil =>
          obtain ⟨rfl, rfl⟩ := List.cons.inj hlist
          exact ⟨[], bs, by rw [ofNat_toNat_ofByte]; rfl, rfl, hcs⟩
        | cons y xs =>
          obtain ⟨rfl, rfl⟩ := List.cons.inj hlist
          obtain ⟨a, b, rfl, ha, hb⟩ := ih hcs
          exact ⟨x :: a, b, rfl, by rw [decodeFrom, if_pos hx, ha]; rfl, hb⟩
      · cases hlead : leadByte x with
        | none =>
          rw [hlead] at h
          cases h
        | some q =>
          rw [hlead] at h
          obtain ⟨a, b, rfl, ha, hb⟩ := ih h
          exact ⟨x :: a, b, rfl, by rw [decodeFrom, if_neg hx, hlead]; exact ha, hb⟩
    | some q =>
      rw [decodeFrom] at h
      split_ifs at h with hx
      cases hrest : q.rest with
      | zero =>
        rw [hrest] at h
        dsimp only at h
        split_ifs at h with hvalid
        obtain ⟨cs, hcs, hlist⟩ := map_eq_some_iff.mp h
        cases xs with
        | nil =>
          obtain ⟨rfl, rfl⟩ := List.cons.inj hlist
          exact absurd (le_trans q.least_ge hvalid.1) (Nat.not_le.mpr hc)
        | cons y xs =>
          obtain ⟨rfl, rfl⟩ := List.cons.inj hlist
          obtain ⟨a, b, rfl, ha, hb⟩ := ih hcs
          refine ⟨x :: a, b, rfl, ?_, hb⟩
          rw [decodeFrom, if_pos hx, hrest]
          dsimp only
          rw [dif_pos hvalid, ha]
          rfl
      | succ n =>
        rw [hrest] at h
        obtain ⟨a, b, rfl, ha, hb⟩ := ih h
        refine ⟨x :: a, b, rfl, ?_, hb⟩
        rw [decodeFrom, if_pos hx, hrest]
        exact ha

theorem exists_low_of_decode {xs ys : List Char} (hlow : ∀ c ∈ xs, c.toNat < 0x80)
    (h : decode bs = some (xs ++ ys)) :
    ∃ b, bs = xs.map (fun c => UInt8.ofNat c.toNat) ++ b ∧ decode b = some ys := by
  induction xs generalizing bs with
  | nil => exact ⟨bs, rfl, h⟩
  | cons c xs ih =>
    have hsplit : decodeFrom none bs = some ([] ++ c :: (xs ++ ys)) := h
    obtain ⟨a, b, rfl, ha, hb⟩ := exists_split_of_decodeFrom (hlow c mem_cons_self) hsplit
    obtain ⟨rest, rfl, hrest⟩ := ih (fun c hmem => hlow c (mem_cons_of_mem _ hmem)) hb
    rw [eq_nil_of_decode ha]
    exact ⟨rest, rfl, hrest⟩

theorem decode_low (hlow : ∀ b ∈ bs, b < 0x80) : decode bs = some (bs.map ofByte) := by
  induction bs with
  | nil => rfl
  | cons b bs ih =>
    have hrest : decodeFrom none bs = _ := ih (fun b hmem => hlow b (mem_cons_of_mem _ hmem))
    rw [decode, decodeFrom, if_pos (hlow b mem_cons_self), hrest]
    rfl

/-- The bytes that a sequence allows next are the ones it can be read with. -/
structure Matches (q : Partial) (w : Awaited) : Prop where
  rest : w.rest = q.rest
  code : w.code = q.code
  next : ∀ b bs cs, decodeFrom (some q) (b :: bs) = some cs → w.low ≤ b ∧ b ≤ w.high

theorem continues_of_decodeFrom (h : decodeFrom (some q) (b :: bs) = some cs) :
    0x80 ≤ b ∧ b < 0xC0 := by
  rw [decodeFrom] at h
  split_ifs at h with hb
  exact hb

theorem exists_code_of_next {n : ℕ} (hrest : q.rest = n + 1)
    (h : decodeFrom (some q) (b :: bs) = some cs) :
    ∃ code, 64 ^ (n + 1) * (64 * q.code + (b.toNat - 0x80)) ≤ code ∧
      code < 64 ^ (n + 1) * (64 * q.code + (b.toNat - 0x80) + 1) ∧
      q.least ≤ code ∧ code.isValidChar := by
  rw [decodeFrom, if_pos (continues_of_decodeFrom h), hrest] at h
  obtain ⟨code, hge, hlt, hleast, hvalid⟩ := exists_code_of_decodeFrom h
  exact ⟨code, hge, hlt, hleast, hvalid⟩

theorem le_BF (h : b < 0xC0) : b ≤ 0xBF := by
  rw [UInt8.le_iff_toNat_le]
  rw [UInt8.lt_iff_toNat_lt] at h
  exact Nat.le_of_lt_succ h

theorem matches_continued (rest least code : ℕ) (hleast : 0x80 ≤ least) :
    Matches ⟨rest, least, code, hleast⟩ ⟨rest, 0x80, 0xBF, code⟩ := by
  refine ⟨rfl, rfl, ?_⟩
  intro b bs cs h
  obtain ⟨hlow, hhigh⟩ := continues_of_decodeFrom h
  exact ⟨hlow, le_BF hhigh⟩

theorem lossyLead_eq (b : UInt8) : lossyLead b =
    if 0xC2 ≤ b.toNat ∧ b.toNat ≤ 0xDF then some ⟨0, 0x80, 0xBF, b.toNat - 0xC0⟩
    else if b.toNat = 0xE0 then some ⟨1, 0xA0, 0xBF, 0⟩
    else if b.toNat = 0xED then some ⟨1, 0x80, 0x9F, 0xD⟩
    else if 0xE1 ≤ b.toNat ∧ b.toNat ≤ 0xEF then some ⟨1, 0x80, 0xBF, b.toNat - 0xE0⟩
    else if b.toNat = 0xF0 then some ⟨2, 0x90, 0xBF, 0⟩
    else if 0xF1 ≤ b.toNat ∧ b.toNat ≤ 0xF3 then some ⟨2, 0x80, 0xBF, b.toNat - 0xF0⟩
    else if b.toNat = 0xF4 then some ⟨2, 0x80, 0x8F, 4⟩
    else none := by
  have heq : ∀ c : UInt8, (b = c) = (b.toNat = c.toNat) := by
    intro c
    rw [UInt8.toNat_inj]
  rw [lossyLead]
  simp only [UInt8.le_iff_toNat_le, heq]
  rfl

section Lead

variable {b : UInt8} {bs : List UInt8} {cs : List Char}

theorem exists_matches_two (hb : 0xC0 ≤ b.toNat ∧ b.toNat < 0xE0)
    (h : decodeFrom (some ⟨0, 0x80, b.toNat - 0xC0, by decide⟩) bs = some cs) :
    ∃ w, lossyLead b = some w ∧ Matches ⟨0, 0x80, b.toNat - 0xC0, by decide⟩ w := by
  obtain ⟨code, -, hlt, hleast, -⟩ := exists_code_of_decodeFrom h
  dsimp only at hlt hleast
  refine ⟨_, ?_, matches_continued _ _ _ _⟩
  rw [lossyLead_eq, if_pos (by omega)]

theorem exists_matches_three (hb : 0xE0 ≤ b.toNat ∧ b.toNat < 0xF0) :
    ∃ w, lossyLead b = some w ∧ Matches ⟨1, 0x800, b.toNat - 0xE0, by decide⟩ w := by
  rw [lossyLead_eq, if_neg (by omega)]
  by_cases hzero : b.toNat = 0xE0
  · rw [if_pos hzero]
    refine ⟨_, rfl, rfl, by rw [hzero], ?_⟩
    intro x xs ys hnext
    obtain ⟨code, -, hlt, hleast, -⟩ := exists_code_of_next rfl hnext
    refine ⟨?_, le_BF (continues_of_decodeFrom hnext).2⟩
    have hx : 0xA0 ≤ x.toNat := by
      dsimp only at hlt hleast
      omega
    exact hx
  · rw [if_neg hzero]
    by_cases hsurrogate : b.toNat = 0xED
    · rw [if_pos hsurrogate]
      refine ⟨_, rfl, rfl, by rw [hsurrogate], ?_⟩
      intro x xs ys hnext
      obtain ⟨hlow, hhigh⟩ := continues_of_decodeFrom hnext
      obtain ⟨code, hge, hlt, -, hvalid⟩ := exists_code_of_next rfl hnext
      have hxhigh : x.toNat < 0xC0 := hhigh
      have hx : x.toNat ≤ 0x9F := by
        rw [Nat.isValidChar] at hvalid
        dsimp only at hge hlt
        omega
      exact ⟨hlow, hx⟩
    · rw [if_neg hsurrogate, if_pos (by omega)]
      exact ⟨_, rfl, matches_continued _ _ _ _⟩

theorem exists_matches_four (hb : 0xF0 ≤ b.toNat ∧ b.toNat < 0xF8)
    (h : decodeFrom (some ⟨2, 0x10000, b.toNat - 0xF0, by decide⟩) bs = some cs) :
    ∃ w, lossyLead b = some w ∧ Matches ⟨2, 0x10000, b.toNat - 0xF0, by decide⟩ w := by
  have htop : b.toNat ≤ 0xF4 := by
    obtain ⟨code, hge, -, -, hvalid⟩ := exists_code_of_decodeFrom h
    rw [Nat.isValidChar] at hvalid
    dsimp only at hge
    omega
  rw [lossyLead_eq, if_neg (by omega), if_neg (by omega), if_neg (by omega), if_neg (by omega)]
  by_cases hzero : b.toNat = 0xF0
  · rw [if_pos hzero]
    refine ⟨_, rfl, rfl, by rw [hzero], ?_⟩
    intro x xs ys hnext
    obtain ⟨code, -, hlt, hleast, -⟩ := exists_code_of_next rfl hnext
    refine ⟨?_, le_BF (continues_of_decodeFrom hnext).2⟩
    have hx : 0x90 ≤ x.toNat := by
      dsimp only at hlt hleast
      omega
    exact hx
  · rw [if_neg hzero]
    by_cases hlast : b.toNat = 0xF4
    · rw [if_neg (by omega), if_pos hlast]
      refine ⟨_, rfl, rfl, by rw [hlast], ?_⟩
      intro x xs ys hnext
      obtain ⟨code, hge, -, -, hvalid⟩ := exists_code_of_next rfl hnext
      have hx : x.toNat ≤ 0x8F := by
        rw [Nat.isValidChar] at hvalid
        dsimp only at hge
        omega
      exact ⟨(continues_of_decodeFrom hnext).1, hx⟩
    · rw [if_pos (by omega)]
      exact ⟨_, rfl, matches_continued _ _ _ _⟩

theorem exists_matches_of_leadByte {q : Partial} (hlead : leadByte b = some q)
    (h : decodeFrom (some q) bs = some cs) : ∃ w, lossyLead b = some w ∧ Matches q w := by
  rw [leadByte] at hlead
  split_ifs at hlead with htwo hthree hfour
  · obtain rfl := some.inj hlead
    exact exists_matches_two htwo h
  · obtain rfl := some.inj hlead
    exact exists_matches_three hthree
  · obtain rfl := some.inj hlead
    exact exists_matches_four hfour h

end Lead

theorem lossyFrom_of_decodeFrom :
    (decodeFrom none bs = some cs → lossyFrom none bs = cs) ∧
      ∀ q w, Matches q w → decodeFrom (some q) bs = some cs → lossyFrom (some w) bs = cs := by
  induction bs generalizing cs with
  | nil =>
    refine ⟨?_, ?_⟩
    · intro h
      exact some.inj h
    · intro q w _ h
      cases h
  | cons b bs ih =>
    refine ⟨?_, ?_⟩
    · intro h
      rw [decodeFrom] at h
      rw [lossyFrom]
      split_ifs at h ⊢ with hb
      · obtain ⟨rest, hrest, rfl⟩ := map_eq_some_iff.mp h
        rw [ih.1 hrest]
      · cases hlead : leadByte b with
        | none =>
          rw [hlead] at h
          cases h
        | some q =>
          rw [hlead] at h
          obtain ⟨w, hw, hmatches⟩ := exists_matches_of_leadByte hlead h
          rw [hw]
          exact ih.2 q w hmatches h
    · intro q w hmatches h
      have hnext := hmatches.next b bs cs h
      rw [decodeFrom, if_pos (continues_of_decodeFrom h)] at h
      rw [lossyFrom, if_pos hnext, hmatches.rest, hmatches.code]
      cases hrest : q.rest with
      | zero =>
        rw [hrest] at h
        dsimp only at h ⊢
        split_ifs at h with hvalid
        obtain ⟨rest, hrest, rfl⟩ := map_eq_some_iff.mp h
        rw [ih.1 hrest, Char.ofNat, dif_pos hvalid.2]
      | succ n =>
        rw [hrest] at h
        exact ih.2 _ _ (matches_continued _ _ _ _) h

theorem fromUtf8Lossy_of_decode (h : decode bs = some cs) : fromUtf8Lossy bs = cs :=
  lossyFrom_of_decodeFrom.1 h

/-! ### Where a character comes from -/

/-- Every character that can come is one, and none stands for a single byte. -/
structure Sound (q : Awaited) : Prop where
  low_ge : 0x80 ≤ q.low.toNat
  high_le : q.high.toNat ≤ 0xBF
  ge : 0x80 ≤ (64 * q.code + (q.low.toNat - 0x80)) * 64 ^ q.rest
  valid : (64 * q.code + (q.high.toNat - 0x80) + 1) * 64 ^ q.rest ≤ 0xD800 ∨
    0xE000 ≤ (64 * q.code + (q.low.toNat - 0x80)) * 64 ^ q.rest ∧
      (64 * q.code + (q.high.toNat - 0x80) + 1) * 64 ^ q.rest ≤ 0x110000

theorem sound_of_lossyLead {q : Awaited} (h : lossyLead b = some q) : Sound q := by
  rw [lossyLead_eq] at h
  split_ifs at h with htwo hE0 hED hthree hF0 hfour hF4
  · obtain rfl := some.inj h
    refine ⟨Nat.le_refl 0x80, Nat.le_refl 0xBF, ?_, .inl ?_⟩ <;>
      dsimp only [UInt8.reduceToNat] <;> omega
  · obtain rfl := some.inj h
    exact ⟨by decide, by decide, by decide, by decide⟩
  · obtain rfl := some.inj h
    exact ⟨by decide, by decide, by decide, by decide⟩
  · obtain rfl := some.inj h
    refine ⟨Nat.le_refl 0x80, Nat.le_refl 0xBF, ?_, ?_⟩ <;> dsimp only [UInt8.reduceToNat] <;> omega
  · obtain rfl := some.inj h
    exact ⟨by decide, by decide, by decide, by decide⟩
  · obtain rfl := some.inj h
    refine ⟨Nat.le_refl 0x80, Nat.le_refl 0xBF, ?_, ?_⟩ <;> dsimp only [UInt8.reduceToNat] <;> omega
  · obtain rfl := some.inj h
    exact ⟨by decide, by decide, by decide, by decide⟩

section Sources

variable {q : Awaited} {b : UInt8} {bs : List UInt8} {w : List Char}

theorem Sound.next (h : Sound q) {n : ℕ} (hrest : q.rest = n + 1) (hb : q.low ≤ b ∧ b ≤ q.high) :
    Sound ⟨n, 0x80, 0xBF, 64 * q.code + (b.toNat - 0x80)⟩ := by
  have hlow : q.low.toNat ≤ b.toNat := hb.1
  have hhigh : b.toNat ≤ q.high.toNat := hb.2
  have hlow_ge := h.low_ge
  have hge := h.ge
  have hvalid := h.valid
  rw [hrest] at hge hvalid
  have hfirst : (64 * q.code + (q.low.toNat - 0x80)) * 64 ^ (n + 1) ≤
      (64 * q.code + (b.toNat - 0x80)) * 64 ^ (n + 1) := Nat.mul_le_mul_right _ (by omega)
  have hlast : (64 * q.code + (b.toNat - 0x80) + 1) * 64 ^ (n + 1) ≤
      (64 * q.code + (q.high.toNat - 0x80) + 1) * 64 ^ (n + 1) :=
    Nat.mul_le_mul_right _ (by omega)
  have hlo : (64 * (64 * q.code + (b.toNat - 0x80)) + ((0x80 : UInt8).toNat - 0x80)) * 64 ^ n =
      (64 * q.code + (b.toNat - 0x80)) * 64 ^ (n + 1) := by
    rw [pow_succ, show (0x80 : UInt8).toNat - 0x80 = 0 from rfl]
    ring
  have hhi : (64 * (64 * q.code + (b.toNat - 0x80)) + ((0xBF : UInt8).toNat - 0x80) + 1) * 64 ^ n =
      (64 * q.code + (b.toNat - 0x80) + 1) * 64 ^ (n + 1) := by
    rw [pow_succ, show (0xBF : UInt8).toNat - 0x80 = 63 from rfl]
    ring
  refine ⟨Nat.le_refl 0x80, Nat.le_refl 0xBF, ?_, ?_⟩
  · dsimp only
    rw [hlo]
    exact hge.trans hfirst
  · dsimp only
    rw [hlo, hhi]
    omega

theorem Sound.char (h : Sound q) (hrest : q.rest = 0) (hb : q.low ≤ b ∧ b ≤ q.high) :
    0x80 ≤ (Char.ofNat (64 * q.code + (b.toNat - 0x80))).toNat := by
  have hlow : q.low.toNat ≤ b.toNat := hb.1
  have hhigh : b.toNat ≤ q.high.toNat := hb.2
  have hlow_ge := h.low_ge
  have hge := h.ge
  have hvalid := h.valid
  rw [hrest, pow_zero, Nat.mul_one] at hge hvalid
  rw [Nat.mul_one] at hvalid
  have hchar : (64 * q.code + (b.toNat - 0x80)).isValidChar := by
    rw [Nat.isValidChar]
    omega
  rw [Char.ofNat, dif_pos hchar]
  have hcode : (Char.ofNatAux (64 * q.code + (b.toNat - 0x80)) hchar).toNat =
      64 * q.code + (b.toNat - 0x80) := rfl
  rw [hcode]
  omega

theorem replacement_ge : 0x80 ≤ replacement.toNat := by decide

theorem exists_head_lossyFrom (h : Sound q) :
    ∃ c cs, lossyFrom (some q) bs = c :: cs ∧ 0x80 ≤ c.toNat := by
  induction bs generalizing q with
  | nil => exact ⟨replacement, [], rfl, replacement_ge⟩
  | cons b bs ih =>
    rw [lossyFrom]
    split_ifs with hb hlow
    · cases hrest : q.rest with
      | zero => exact ⟨_, _, rfl, h.char hrest hb⟩
      | succ n => exact ih (h.next hrest hb)
    · exact ⟨_, _, rfl, replacement_ge⟩
    · cases lossyLead b with
      | none => exact ⟨_, _, rfl, replacement_ge⟩
      | some q' => exact ⟨_, _, rfl, replacement_ge⟩

theorem eq_nil_of_isPrefix_cons {c : Char} {cs : List Char} (hlow : ∀ c ∈ w, c.toNat < 0x80)
    (hc : 0x80 ≤ c.toNat) (h : w <+: c :: cs) : w = [] := by
  cases w with
  | nil => rfl
  | cons d w =>
    obtain ⟨rfl, -⟩ := cons_prefix_cons.mp h
    have hd := hlow d mem_cons_self
    omega

theorem isPrefix_of_lossyFrom (hlow : ∀ c ∈ w, c.toNat < 0x80) (h : w <+: lossyFrom none bs) :
    w.map (fun c => UInt8.ofNat c.toNat) <+: bs := by
  induction bs generalizing w with
  | nil =>
    rw [prefix_nil.mp h]
    exact nil_prefix
  | cons b bs ih =>
    rw [lossyFrom] at h
    split_ifs at h with hb
    · cases w with
      | nil => exact nil_prefix
      | cons c w =>
        obtain ⟨rfl, hrest⟩ := cons_prefix_cons.mp h
        rw [map_cons, toNat_ofByte, UInt8.ofNat_toNat, cons_prefix_cons]
        exact ⟨rfl, ih (fun c hc => hlow c (mem_cons_of_mem _ hc)) hrest⟩
    · cases hlead : lossyLead b with
      | none =>
        rw [hlead] at h
        rw [eq_nil_of_isPrefix_cons hlow replacement_ge h]
        exact nil_prefix
      | some q =>
        rw [hlead] at h
        obtain ⟨c, cs, hcs, hc⟩ : ∃ c cs, lossyFrom (some q) bs = c :: cs ∧ 0x80 ≤ c.toNat :=
          exists_head_lossyFrom (sound_of_lossyLead hlead)
        dsimp only at h
        rw [hcs] at h
        rw [eq_nil_of_isPrefix_cons hlow hc h]
        exact nil_prefix

theorem lossyFrom_of_not_next (h : ¬ (q.low ≤ b ∧ b ≤ q.high)) :
    lossyFrom (some q) (b :: bs) = replacement :: lossyFrom none (b :: bs) := by
  rw [lossyFrom, lossyFrom, if_neg h]
  split_ifs with hb
  · rfl
  · cases lossyLead b <;> rfl

theorem isInfix_of_lossyFrom (hlow : ∀ c ∈ w, c.toNat < 0x80) :
    (w <:+: lossyFrom none bs → w.map (fun c => UInt8.ofNat c.toNat) <:+: bs) ∧
      ∀ q, Sound q → w <:+: lossyFrom (some q) bs →
        w.map (fun c => UInt8.ofNat c.toNat) <:+: bs := by
  have hcons : ∀ (c : Char) (cs : List Char), 0x80 ≤ c.toNat → w <:+: c :: cs →
      w = [] ∨ w <:+: cs := by
    intro c cs hc h
    rcases infix_cons_iff.mp h with hisPrefix | hisInfix
    · exact .inl (eq_nil_of_isPrefix_cons hlow hc hisPrefix)
    · exact .inr hisInfix
  have hnil : ∀ xs : List UInt8, w = [] → w.map (fun c => UInt8.ofNat c.toNat) <:+: xs := by
    rintro xs rfl
    exact nil_infix
  induction bs with
  | nil =>
    refine ⟨?_, ?_⟩
    · intro h
      exact hnil [] (infix_nil.mp h)
    · intro q _ h
      rcases hcons _ _ replacement_ge h with h | h
      · exact hnil [] h
      · exact hnil [] (infix_nil.mp h)
  | cons b bs ih =>
    have hnone : w <:+: lossyFrom none (b :: bs) →
        w.map (fun c => UInt8.ofNat c.toNat) <:+: b :: bs := by
      intro h
      have hfront : w <+: lossyFrom none (b :: bs) →
          w.map (fun c => UInt8.ofNat c.toNat) <+: b :: bs := isPrefix_of_lossyFrom hlow
      rw [lossyFrom] at h hfront
      split_ifs at h hfront with hb
      · rcases infix_cons_iff.mp h with hisPrefix | hisInfix
        · exact (hfront hisPrefix).isInfix
        · exact infix_cons (ih.1 hisInfix)
      · cases hlead : lossyLead b with
        | none =>
          rw [hlead] at h
          rcases hcons _ _ replacement_ge h with h | h
          · exact hnil _ h
          · exact infix_cons (ih.1 h)
        | some q =>
          rw [hlead] at h
          exact infix_cons (ih.2 q (sound_of_lossyLead hlead) h)
    refine ⟨hnone, ?_⟩
    intro q hq h
    by_cases hb : q.low ≤ b ∧ b ≤ q.high
    · rw [lossyFrom, if_pos hb] at h
      cases hrest : q.rest with
      | zero =>
        rw [hrest] at h
        rcases hcons _ _ (hq.char hrest hb) h with h | h
        · exact hnil _ h
        · exact infix_cons (ih.1 h)
      | succ n =>
        rw [hrest] at h
        exact infix_cons (ih.2 _ (hq.next hrest hb) h)
    · rw [lossyFrom_of_not_next hb] at h
      rcases hcons _ _ replacement_ge h with h | h
      · exact hnil _ h
      · exact hnone h

theorem isInfix_of_fromUtf8Lossy (hlow : ∀ c ∈ w, c.toNat < 0x80)
    (h : w <:+: fromUtf8Lossy bs) : w.map (fun c => UInt8.ofNat c.toNat) <:+: bs :=
  (isInfix_of_lossyFrom hlow).1 h

end Sources

end Sipnab.Utf8
