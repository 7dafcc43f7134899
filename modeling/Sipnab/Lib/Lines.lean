import Sipnab.Lib.Text
import Sipnab.Lib.Utf8

/-!
# Lines

A text cut at its line feeds, and the same cuts in its bytes. What is left of a line once it is
trimmed does not depend on how the line ended.
-/

namespace Sipnab.Text

theorem split_eq_splitOn (sep : Char) (s : List Char) : split sep s = s.splitOn sep := by
  induction s with
  | nil => rfl
  | cons c s ih =>
    rw [split, List.splitOn_cons_eq_if_modifyHead, ih]
    by_cases hc : c = sep
    · simp [hc]
    · rw [if_neg hc, if_neg (by simpa using hc)]
      cases h : s.splitOn sep with
      | nil => exact absurd h (List.splitOn_ne_nil sep s)
      | cons piece rest => rfl

theorem not_mem_of_mem_split {sep : Char} {s piece : List Char} (h : piece ∈ split sep s) :
    sep ∉ piece := by
  induction s generalizing piece with
  | nil =>
    rw [split, List.mem_singleton] at h
    rw [h]
    exact List.not_mem_nil
  | cons c s ih =>
    rw [split] at h
    split_ifs at h with hc
    · rcases List.mem_cons.mp h with rfl | hrest
      · exact List.not_mem_nil
      · exact ih hrest
    · cases hs : split sep s with
      | nil =>
        rw [hs, List.mem_singleton] at h
        rw [h, List.mem_singleton]
        exact Ne.symm hc
      | cons first others =>
        rw [hs] at h ih
        rcases List.mem_cons.mp h with rfl | hrest
        · rw [List.mem_cons, not_or]
          exact ⟨Ne.symm hc, ih List.mem_cons_self⟩
        · exact ih (List.mem_cons_of_mem _ hrest)

theorem trim_append_blank (s : List Char) {c : Char} (hc : isWhitespace c = true) :
    trim (s ++ [c]) = trim s := by
  by_cases hblank : trim s = []
  · rw [hblank]
    rw [trim_eq_nil_iff] at hblank ⊢
    intro x hx
    rcases List.mem_append.mp hx with hs | hlast
    · exact hblank x hs
    · rw [List.mem_singleton.mp hlast]
      exact hc
  · rw [trim, trimStart_append (trimStart_ne_nil hblank), trimEnd_append_blank, trim]
    rw [trimEnd, List.reverse_singleton, List.dropWhile_cons_of_pos hc]
    rfl

def stripReturn (line : List Char) : List Char :=
  if line.getLast? = some '\r' then line.dropLast else line

def linesOf : List (List Char) → List (List Char)
  | [] => []
  | [last] => if last = [] then [] else [last]
  | line :: next :: rest => stripReturn line :: linesOf (next :: rest)

def lines (text : List Char) : List (List Char) := linesOf (split '\n' text)

@[simp] theorem trim_stripReturn (line : List Char) : trim (stripReturn line) = trim line := by
  unfold stripReturn
  split_ifs with hlast
  · obtain ⟨init, rfl⟩ := List.getLast?_eq_some_iff.mp hlast
    rw [List.dropLast_concat, trim_append_blank init (by decide)]
  · rfl

theorem mem_trimmed_linesOf {pieces : List (List Char)} {line : List Char} (hline : line ≠ []) :
    line ∈ (linesOf pieces).map trim ↔ ∃ piece ∈ pieces, trim piece = line := by
  induction pieces using linesOf.induct with
  | case1 => simp [linesOf]
  | case2 =>
    simp only [linesOf, if_pos, List.map_nil, List.not_mem_nil, false_iff]
    rintro ⟨piece, hmem, rfl⟩
    obtain rfl := List.mem_singleton.mp hmem
    exact hline rfl
  | case3 last hlast => simp [linesOf, hlast, eq_comm]
  | case4 first next rest ih =>
    rw [linesOf, List.map_cons, List.mem_cons, trim_stripReturn, ih]
    simp [eq_comm]

theorem mem_trimmed_lines {text line : List Char} (hline : line ≠ []) :
    line ∈ (lines text).map trim ↔ ∃ piece ∈ split '\n' text, trim piece = line :=
  mem_trimmed_linesOf hline

end Sipnab.Text

namespace Sipnab.Utf8

open Text

theorem lf_not_mem_of_decode {bytes : List UInt8} {text : List Char}
    (h : decode bytes = some text) (hbytes : 10 ∉ bytes) : '\n' ∉ text := by
  intro hmem
  obtain ⟨b, hb, hchar⟩ := exists_byte_of_mem_decodeFrom h hmem (by decide)
  have hbyte : b.toNat = (10 : UInt8).toNat := by
    rw [← toNat_ofByte b, hchar]
    rfl
  exact hbytes (UInt8.toNat_inj.mp hbyte ▸ hb)

theorem map_decode_splitOn {bytes : List UInt8} {text : List Char} (h : decode bytes = some text) :
    (bytes.splitOn 10).map decode = (split '\n' text).map some := by
  induction hn : bytes.length using Nat.strong_induction_on generalizing bytes text with
  | _ n ih =>
    by_cases hmem : (10 : UInt8) ∈ bytes
    · obtain ⟨first, rest, rfl, hfirst⟩ := List.eq_append_cons_of_mem hmem
      rw [decode_append_cons (by decide), Option.bind_eq_some_iff] at h
      obtain ⟨xs, hxs, hmap⟩ := h
      obtain ⟨ys, hys, rfl⟩ := Option.map_eq_some_iff.mp hmap
      have hclean := lf_not_mem_of_decode hxs hfirst
      have hrest := ih rest.length (by rw [← hn]; simp; omega) hys rfl
      have hlf : ofByte 10 = '\n' := by decide
      rw [hlf, List.splitOn_append_cons_self_of_not_mem hfirst, split_eq_splitOn,
        List.splitOn_append_cons_self_of_not_mem hclean, ← split_eq_splitOn]
      rw [List.map_cons, List.map_cons, hrest, hxs]
    · have hclean := lf_not_mem_of_decode h hmem
      rw [List.splitOn_eq_singleton hmem, split_eq_splitOn, List.splitOn_eq_singleton hclean]
      simp [h]

end Sipnab.Utf8
