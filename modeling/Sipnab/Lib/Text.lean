import Mathlib

/-!
# Text scanning on character lists

The string operations the header readers are written with, on `List Char`: trimming, splitting
at a separator, splitting at white space, ASCII case folding, and reading an unsigned decimal
number. Each follows the `str` method of the same name.
-/

namespace Sipnab.Text

open List

def isWhitespace (c : Char) : Bool :=
  let n := c.toNat
  (9 ≤ n && n ≤ 13) || n == 0x20 || n == 0x85 || n == 0xA0 || n == 0x1680 ||
    (0x2000 ≤ n && n ≤ 0x200A) || n == 0x2028 || n == 0x2029 || n == 0x202F ||
    n == 0x205F || n == 0x3000

def trimStart (s : List Char) : List Char := s.dropWhile isWhitespace

def trimEnd (s : List Char) : List Char := (s.reverse.dropWhile isWhitespace).reverse

def trim (s : List Char) : List Char := trimEnd (trimStart s)

/-- The pieces between separators; the separator-free text is one piece. -/
def split (sep : Char) : List Char → List (List Char)
  | [] => [[]]
  | c :: s =>
    if c = sep then [] :: split sep s
    else match split sep s with
      | [] => [[c]]
      | piece :: rest => (c :: piece) :: rest

/-- What precedes the first separator; the whole text when there is none. -/
def firstPiece (sep : Char) (s : List Char) : List Char := s.takeWhile (· ≠ sep)

def splitOnce (sep : Char) (s : List Char) : Option (List Char × List Char) :=
  match s.dropWhile (· ≠ sep) with
  | [] => none
  | _ :: rest => some (s.takeWhile (· ≠ sep), rest)

def splitWhitespace : List Char → List (List Char)
  | [] => []
  | c :: s =>
    if isWhitespace c then splitWhitespace s
    else match s, splitWhitespace s with
      | [], _ => [[c]]
      | d :: _, words =>
        if isWhitespace d then [c] :: words
        else match words with
          | [] => [[c]]
          | word :: rest => (c :: word) :: rest

def isAsciiUppercase (c : Char) : Bool := 'A' ≤ c && c ≤ 'Z'

def isAsciiDigit (c : Char) : Bool := '0' ≤ c && c ≤ '9'

def toAsciiLowercase (c : Char) : Char :=
  if isAsciiUppercase c then Char.ofNat (c.toNat + 32) else c

def eqIgnoreAsciiCase (a b : List Char) : Bool :=
  a.map toAsciiLowercase == b.map toAsciiLowercase

def digitsValue (s : List Char) : Option ℕ :=
  if s.isEmpty || !s.all isAsciiDigit then none
  else some (s.foldl (fun n c => 10 * n + (c.toNat - 48)) 0)

/-- `str::parse` at an unsigned type holding values below `bound`: one leading `+` is allowed. -/
def parseUnsigned (bound : ℕ) (s : List Char) : Option ℕ :=
  let digits := match s with
    | '+' :: rest => rest
    | _ => s
  (digitsValue digits).filter (· < bound)

def parseU32 : List Char → Option ℕ := parseUnsigned (2 ^ 32)

def parseU8 : List Char → Option ℕ := parseUnsigned (2 ^ 8)

/-! ## Trimmed text -/

theorem trimStart_append {s : List Char} (h : trimStart s ≠ []) (t : List Char) :
    trimStart (s ++ t) = trimStart s ++ t := by
  rw [trimStart, dropWhile_append, if_neg]
  · rfl
  · rw [List.isEmpty_iff]
    exact h

variable {c : Char} (s : List Char)

theorem trimEnd_append {t : List Char} (h : trimEnd t ≠ []) (s : List Char) :
    trimEnd (s ++ t) = s ++ trimEnd t := by
  rw [trimEnd, reverse_append, dropWhile_append, if_neg, reverse_append, reverse_reverse]
  · rfl
  · rw [List.isEmpty_iff]
    exact fun hempty => h (by rw [trimEnd, hempty, reverse_nil])

theorem trimEnd_append_blank {t : List Char} (h : trimEnd t = []) (s : List Char) :
    trimEnd (s ++ t) = trimEnd s := by
  rw [trimEnd, reverse_eq_nil_iff] at h
  rw [trimEnd, reverse_append, dropWhile_append, if_pos (by rw [h]; rfl)]
  rfl

theorem trimStart_cons_blank (h : isWhitespace c = true) (s : List Char) :
    trimStart (c :: s) = trimStart s := dropWhile_cons_of_pos h

theorem trimEnd_isPrefix : trimEnd s <+: s := by
  have hsuffix := reverse_prefix.mpr (dropWhile_suffix (l := s.reverse) isWhitespace)
  rwa [reverse_reverse] at hsuffix

@[simp] theorem trimStart_trimStart : trimStart (trimStart s) = trimStart s :=
  dropWhile_idempotent isWhitespace s

theorem trimStart_trimEnd {s : List Char} (h : trimStart s = s) :
    trimStart (trimEnd s) = trimEnd s := by
  obtain ⟨rest, hrest⟩ := trimEnd_isPrefix s
  cases hend : trimEnd s with
  | nil => rfl
  | cons c t =>
    rw [hend] at hrest
    have hc : ¬ isWhitespace c = true := by
      intro hblank
      rw [← hrest, cons_append, trimStart_cons_blank hblank] at h
      have hlength := (dropWhile_suffix (l := t ++ rest) isWhitespace).length_le
      rw [trimStart] at h
      rw [h, length_cons] at hlength
      omega
    exact dropWhile_cons_of_neg hc

@[simp] theorem trim_trim : trim (trim s) = trim s := by
  rw [trim, trim, trimStart_trimEnd (trimStart_trimStart s)]
  simp only [trimEnd, reverse_reverse, dropWhile_idempotent isWhitespace _]

@[simp] theorem trim_trimStart : trim (trimStart s) = trim s := by
  rw [trim, trimStart_trimStart, trim]

theorem trim_cons_blank (h : isWhitespace c = true) (s : List Char) : trim (c :: s) = trim s := by
  rw [trim, trimStart_cons_blank h, trim]

theorem trimStart_ne_nil {s : List Char} (h : trim s ≠ []) : trimStart s ≠ [] := by
  intro hstart
  rw [trim, hstart] at h
  exact h rfl

theorem trim_append_cons_blank {s : List Char} (h : trim s ≠ []) (hc : isWhitespace c = true)
    (t : List Char) : trim (s ++ c :: t) = trim s ∨ c ∈ trim (s ++ c :: t) := by
  have hstart := trimStart_ne_nil h
  rw [trim, trimStart_append hstart]
  by_cases ht : trimEnd t = []
  · have hblank : trimEnd (c :: t) = [] := by
      rw [← singleton_append, trimEnd_append_blank ht, trimEnd, reverse_singleton,
        dropWhile_cons_of_pos hc]
      rfl
    exact Or.inl (trimEnd_append_blank hblank _)
  · refine Or.inr ?_
    rw [append_cons, trimEnd_append ht]
    simp

theorem trim_eq_nil_iff {s : List Char} : trim s = [] ↔ ∀ c ∈ s, isWhitespace c = true := by
  rw [trim, trimEnd, reverse_eq_nil_iff, dropWhile_eq_nil_iff]
  constructor
  · intro h
    have hstart : trimStart s = [] := by
      by_contra hne
      have hnot := head_dropWhile_not isWhitespace hne
      have hblank := h _ (mem_reverse.mpr (head_mem hne))
      exact Bool.false_ne_true (hnot.symm.trans hblank)
    exact dropWhile_eq_nil_iff.mp hstart
  · intro h c hc
    exact h c ((dropWhile_suffix isWhitespace).subset (mem_reverse.mp hc))

theorem isWhitespace_getLast_trim {s : List Char} (h : trim s ≠ []) :
    isWhitespace ((trim s).getLast h) = false := by
  have hne : (trimStart s).reverse.dropWhile isWhitespace ≠ [] := by
    intro hnil
    apply h
    rw [trim, trimEnd, hnil, reverse_nil]
  have heq : (trim s).getLast h = ((trimStart s).reverse.dropWhile isWhitespace).head hne := by
    simp only [trim, trimEnd, getLast_reverse]
  rw [heq]
  simpa using head_dropWhile_not isWhitespace hne

theorem splitOnce_append_cons {sep : Char} {a : List Char} (h : sep ∉ a) (b : List Char) :
    splitOnce sep (a ++ sep :: b) = some (a, b) := by
  have hall : ∀ c ∈ a, decide (c ≠ sep) = true := by
    intro c hc
    rw [decide_eq_true_eq]
    exact fun heq => h (heq ▸ hc)
  rw [splitOnce, dropWhile_append_of_pos hall, takeWhile_append_of_pos hall]
  simp

theorem eq_append_of_splitOnce {sep : Char} {s a b : List Char} (h : splitOnce sep s = some (a, b)) :
    s = a ++ sep :: b ∧ sep ∉ a := by
  rw [splitOnce] at h
  cases hrest : s.dropWhile (· ≠ sep) with
  | nil =>
    rw [hrest] at h
    cases h
  | cons c rest =>
    rw [hrest] at h
    obtain ⟨rfl, rfl⟩ : s.takeWhile (· ≠ sep) = a ∧ rest = b := by simpa using h
    have hc : c = sep := by
      have hhead := head_dropWhile_not (· ≠ sep) (by rw [hrest]; simp)
      simp only [hrest, head_cons] at hhead
      simpa using hhead
    refine ⟨?_, ?_⟩
    · conv_lhs => rw [← takeWhile_append_dropWhile (p := (· ≠ sep)) (l := s), hrest, hc]
    · intro hmem
      simpa using mem_takeWhile_imp hmem

theorem not_isAsciiDigit_of_isWhitespace (h : isWhitespace c = true) : ¬ isAsciiDigit c = true := by
  intro hdigit
  rw [isAsciiDigit, Bool.and_eq_true, decide_eq_true_eq, decide_eq_true_eq] at hdigit
  have hlow : 48 ≤ c.toNat := hdigit.1
  have hhigh : c.toNat ≤ 57 := hdigit.2
  simp only [isWhitespace, Bool.or_eq_true, Bool.and_eq_true, decide_eq_true_eq, beq_iff_eq] at h
  omega

theorem not_mem_of_parseUnsigned {bound n : ℕ} {s : List Char}
    (h : parseUnsigned bound s = some n) (hc : isWhitespace c = true) : c ∉ s := by
  intro hmem
  have hdigits : ∀ ds : List Char, c ∈ ds → digitsValue ds = none := by
    intro ds hds
    rw [digitsValue, if_pos]
    rw [Bool.or_eq_true, Bool.not_eq_true', List.all_eq_false]
    exact Or.inr ⟨c, hds, fun hdigit => not_isAsciiDigit_of_isWhitespace hc hdigit⟩
  unfold parseUnsigned at h
  dsimp only at h
  split at h
  · rename_i rest
    rcases mem_cons.mp hmem with rfl | hmem
    · exact absurd hc (by decide)
    · rw [hdigits rest hmem] at h
      cases h
  · rw [hdigits s hmem] at h
    cases h

end Sipnab.Text
