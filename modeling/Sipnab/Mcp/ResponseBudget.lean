import Sipnab.Lib.OrderedMap
import Sipnab.Vcon.Jose

/-!
# The byte budget of a page

A page that is too large loses whole rows from its end. How many it keeps is decided against an
envelope at its largest: the longest cursor that a row could hand on, and the number of all rows.
-/

namespace Sipnab.Mcp

open Vcon List OrderedMap

/-! ## Compact JSON -/

def hexDigit (n : ℕ) : Char := if n < 10 then Char.ofNat (48 + n) else Char.ofNat (87 + n)

def escapeChar (c : Char) : List Char :=
  if c = '"' then ['\\', '"']
  else if c = '\\' then ['\\', '\\']
  else if c.toNat = 8 then ['\\', 'b']
  else if c.toNat = 9 then ['\\', 't']
  else if c.toNat = 10 then ['\\', 'n']
  else if c.toNat = 12 then ['\\', 'f']
  else if c.toNat = 13 then ['\\', 'r']
  else if c.toNat < 32 then
    ['\\', 'u', '0', '0', hexDigit (c.toNat / 16), hexDigit (c.toNat % 16)]
  else [c]

def quoted (text : String) : List Char := '"' :: text.toList.flatMap escapeChar ++ ['"']

def joined : List (List Char) → List Char
  | [] => []
  | [text] => text
  | text :: next :: rest => text ++ ',' :: joined (next :: rest)

mutual

def render : Json → List Char
  | .null => ['n', 'u', 'l', 'l']
  | .bool true => ['t', 'r', 'u', 'e']
  | .bool false => ['f', 'a', 'l', 's', 'e']
  | .number text => text.toList
  | .string text => quoted text
  | .array items => '[' :: joined (renderItems items) ++ [']']
  | .object members => '\x7b' :: joined (renderMembers members) ++ ['\x7d']

def renderItems : List Json → List (List Char)
  | [] => []
  | item :: rest => render item :: renderItems rest

def renderMembers : List (String × Json) → List (List Char)
  | [] => []
  | (name, value) :: rest => (quoted name ++ ':' :: render value) :: renderMembers rest

end

def byteLen (text : List Char) : ℕ := (text.map Char.utf8Size).sum

def serializedLen (value : Json) : ℕ := byteLen (render value)

/-! ## The cut -/

abbrev Page := OrderedMap String Json

def Page.len (page : Page) : ℕ := serializedLen (.object page.entries)

def usizeMax : ℕ := 2 ^ 64 - 1

def saturatingAdd (a b : ℕ) : ℕ := min (a + b) usizeMax

/-- How many leading rows fit: `k` is the number of rows counted so far. -/
def rowsWithinFrom (used k budget : ℕ) : List ℕ → ℕ
  | [] => k
  | len :: rest =>
    let used := saturatingAdd (saturatingAdd used len) (if 0 < k then 1 else 0)
    if budget < used then k else rowsWithinFrom used (k + 1) budget rest

def rowsWithin (fixed : ℕ) (rows : List ℕ) (budget : ℕ) : ℕ := rowsWithinFrom fixed 0 budget rows

def longestCursor : List String → String
  | [] => ""
  | first :: rest => rest.foldl (fun best c =>
      if byteLen best.toList ≤ byteLen c.toList then c else best) first

def mark (page : Page) (kept : ℕ) (hadReturned : Bool) (cursor : String) : Page :=
  let page := page.insert "truncated" (.bool true)
  let page := page.insert "truncated_by" (.string "bytes")
  let page := page.insert "next_cursor" (.string cursor)
  if hadReturned then page.insert "returned" (.number (toString kept)) else page

def hadReturned (page : Page) : Bool := (page.get? "returned").isSome

def fit (page : Page) (rowsKey : String) (rowCursors : List String) (budget outside : ℕ) :
    Page × Except String Bool :=
  if saturatingAdd page.len outside ≤ budget then (page, .ok false)
  else match page.get? rowsKey with
    | some (.array rows) =>
      let obj := page.insert rowsKey (.array [])
      if rows.length ≠ rowCursors.length then
        (obj.insert rowsKey (.array rows), .error (toString rows.length ++ " rows but " ++
          toString rowCursors.length ++
          " cursors; every row needs the cursor that resumes after it"))
      else if rows.length ≤ 1 then (obj.insert rowsKey (.array rows), .ok false)
      else
        let had := hadReturned obj
        let marked := mark obj rows.length had (longestCursor rowCursors)
        let kept := max (rowsWithin (saturatingAdd marked.len outside) (rows.map serializedLen)
          budget) 1
        if rows.length ≤ kept then
          (marked, .error "the byte budget estimate kept every row of a page that did not fit")
        else match rowCursors[kept - 1]? with
          | none => (marked, .error "cursor for the last kept row")
          | some cursor =>
            ((mark marked kept had cursor).insert rowsKey (.array (rows.take kept)), .ok true)
    | _ => (page, .error ("page has no '" ++ rowsKey ++ "' array"))

/-! ## Lengths -/

@[simp] theorem byteLen_nil : byteLen [] = 0 := rfl

@[simp] theorem byteLen_cons (c : Char) (text : List Char) :
    byteLen (c :: text) = c.utf8Size + byteLen text := rfl

@[simp] theorem byteLen_append (a b : List Char) : byteLen (a ++ b) = byteLen a + byteLen b := by
  simp [byteLen]

theorem byteLen_joined {texts : List (List Char)} (h : texts ≠ []) :
    byteLen (joined texts) + 1 = (texts.map (fun t => byteLen t + 1)).sum := by
  induction texts using joined.induct with
  | case1 => exact absurd rfl h
  | case2 text => simp [joined]
  | case3 text next rest ih =>
    have hrest := ih (cons_ne_nil next rest)
    have hcomma : Char.utf8Size ',' = 1 := by decide
    rw [joined, byteLen_append, byteLen_cons, map_cons, sum_cons, ← hrest, hcomma]
    omega

theorem renderItems_eq (items : List Json) : renderItems items = items.map render := by
  induction items with
  | nil => rfl
  | cons item rest ih => rw [renderItems, ih, map_cons]

theorem renderMembers_eq (members : List (String × Json)) :
    renderMembers members = members.map (fun m => quoted m.1 ++ ':' :: render m.2) := by
  induction members with
  | nil => rfl
  | cons m rest ih => rw [renderMembers, ih, map_cons]

def rowsLen (sizes : List ℕ) : ℕ := sizes.sum + (sizes.length - 1)

theorem rowsLen_cons (size : ℕ) (sizes : List ℕ) :
    rowsLen (size :: sizes) = size + (sizes.map (· + 1)).sum := by
  have hsum : (sizes.map (· + 1)).sum = sizes.sum + sizes.length := by
    rw [sum_map_add]
    simp
  rw [rowsLen, hsum, sum_cons, length_cons]
  omega

theorem serializedLen_array (items : List Json) :
    serializedLen (.array items) = 2 + rowsLen (items.map serializedLen) := by
  have hopen : Char.utf8Size '[' = 1 := by decide
  have hclose : Char.utf8Size ']' = 1 := by decide
  rw [serializedLen, render, renderItems_eq, byteLen_append, byteLen_cons, byteLen_cons,
    byteLen_nil, hopen, hclose]
  cases items with
  | nil => rfl
  | cons item rest =>
    have hjoined := byteLen_joined (cons_ne_nil (render item) (rest.map render))
    rw [map_cons, sum_cons, List.map_map] at hjoined
    rw [map_cons, map_cons, rowsLen_cons, List.map_map]
    have hsum : (rest.map ((fun x => x + 1) ∘ serializedLen)).sum
        = (rest.map ((fun t => byteLen t + 1) ∘ render)).sum := rfl
    rw [hsum, serializedLen]
    omega

def memberLen (m : String × Json) : ℕ := byteLen (quoted m.1) + 2 + serializedLen m.2

theorem Page.len_eq {page : Page} (h : page.entries ≠ []) :
    page.len = 1 + (page.entries.map memberLen).sum := by
  have hopen : Char.utf8Size '\x7b' = 1 := by decide
  have hclose : Char.utf8Size '\x7d' = 1 := by decide
  have hcolon : Char.utf8Size ':' = 1 := by decide
  have hne : renderMembers page.entries ≠ [] := by
    rw [renderMembers_eq]
    simpa using h
  have hjoined := byteLen_joined hne
  have hmembers : (renderMembers page.entries).map (fun t => byteLen t + 1)
      = page.entries.map memberLen := by
    rw [renderMembers_eq, List.map_map]
    refine map_congr_left (fun m _ => ?_)
    rw [Function.comp_apply, byteLen_append, byteLen_cons, hcolon, memberLen, serializedLen]
    omega
  rw [hmembers] at hjoined
  rw [Page.len, serializedLen, render, byteLen_append, byteLen_cons, byteLen_cons, byteLen_nil,
    hopen, hclose]
  omega

theorem Page.len_insert {page : Page} {name : String} {old : Json}
    (h : page.get? name = some old) (value : Json) :
    Page.len (page.insert name value) + serializedLen old = page.len + serializedLen value := by
  have hperm := (entries_perm_erase h).map memberLen
  have hperm' := (entries_insert_perm page name value).map memberLen
  have hne : page.entries ≠ [] := ne_nil_of_mem (OrderedMap.get?_eq_some_iff.mp h)
  have hne' : (page.insert name value).entries ≠ [] :=
    ne_nil_of_mem (OrderedMap.mem_entries_insert.mpr (.inl rfl))
  rw [Page.len_eq hne, Page.len_eq hne', hperm.sum_eq, hperm'.sum_eq]
  simp only [map_cons, sum_cons, memberLen]
  omega

theorem utf8Size_of_digit {c : Char} (h : c.isDigit = true) : c.utf8Size = 1 := by
  rw [Char.isDigit, Bool.and_eq_true, decide_eq_true_eq, decide_eq_true_eq] at h
  rw [Char.utf8Size_eq_one_iff]
  exact UInt32.le_trans h.2 (by decide)

theorem serializedLen_number (n : ℕ) :
    serializedLen (.number (toString n)) = (Nat.repr n).length := by
  have hdigits : ∀ c ∈ (toString n).toList, c.utf8Size = 1 := by
    intro c hc
    have hmem : c ∈ Nat.toDigits 10 n := by simpa using hc
    exact utf8Size_of_digit (Nat.isDigit_of_mem_toDigits (by decide) (by decide) hmem)
  rw [serializedLen, render, byteLen, map_congr_left hdigits]
  simp [Nat.repr_eq_ofList_toDigits]

theorem serializedLen_number_le {k n : ℕ} (h : k ≤ n) :
    serializedLen (.number (toString k)) ≤ serializedLen (.number (toString n)) := by
  rw [serializedLen_number, serializedLen_number]
  have hlt := (Nat.length_repr_le_iff Nat.length_repr_pos).mp (le_refl (Nat.repr n).length)
  exact (Nat.length_repr_le_iff Nat.length_repr_pos).mpr (h.trans_lt hlt)

/-! ## How many rows fit -/

variable {budget : ℕ}

theorem lt_saturatingAdd_iff (hbudget : budget < usizeMax) (a b : ℕ) :
    budget < saturatingAdd a b ↔ budget < a + b := by
  rw [saturatingAdd, lt_min_iff]
  exact and_iff_left hbudget

theorem saturatingAdd_of_le (hbudget : budget < usizeMax) {a b : ℕ} (h : a + b ≤ budget) :
    saturatingAdd a b = a + b := min_eq_left (by omega)

theorem rowsWithinFrom_cons {used k len : ℕ} (hbudget : budget < usizeMax) (rest : List ℕ) :
    rowsWithinFrom used k budget (len :: rest) =
      if budget < used + len + (if 0 < k then 1 else 0) then k
      else rowsWithinFrom (used + len + (if 0 < k then 1 else 0)) (k + 1) budget rest := by
  rw [rowsWithinFrom]
  by_cases hover : budget < used + len + (if 0 < k then 1 else 0)
  · rw [if_pos hover, if_pos]
    rw [lt_saturatingAdd_iff hbudget]
    by_cases hlen : used + len ≤ budget
    · rwa [saturatingAdd_of_le hbudget hlen]
    · have hlt := (lt_saturatingAdd_iff hbudget used len).mpr (by omega)
      omega
  · have hlen : saturatingAdd used len = used + len := saturatingAdd_of_le hbudget (by omega)
    have hsum : saturatingAdd (used + len) (if 0 < k then 1 else 0) = _ :=
      saturatingAdd_of_le hbudget (Nat.not_lt.mp hover)
    rw [if_neg hover, hlen, hsum, if_neg hover]

theorem rowsWithinFrom_spec (hbudget : budget < usizeMax) {used k : ℕ} (hk : 0 < k)
    (hused : used ≤ budget) (sizes : List ℕ) :
    ∃ r ≤ sizes.length, rowsWithinFrom used k budget sizes = k + r ∧
      used + ((sizes.take r).map (· + 1)).sum ≤ budget ∧
      ∀ j, r < j → j ≤ sizes.length → budget < used + ((sizes.take j).map (· + 1)).sum := by
  induction sizes generalizing used k with
  | nil => exact ⟨0, le_refl 0, rfl, hused, fun j hj hlen => absurd hlen (Nat.not_le.mpr hj)⟩
  | cons len rest ih =>
    rw [rowsWithinFrom_cons hbudget, if_pos hk]
    by_cases hover : budget < used + len + 1
    · rw [if_pos hover]
      refine ⟨0, Nat.zero_le _, rfl, hused, fun j hj _ => ?_⟩
      obtain ⟨i, rfl⟩ := Nat.exists_eq_succ_of_ne_zero hj.ne'
      rw [take_succ_cons, map_cons, sum_cons]
      omega
    · rw [if_neg hover]
      obtain ⟨r, hr, heq, hfits, hlargest⟩ := ih (Nat.succ_pos k) (Nat.not_lt.mp hover)
      refine ⟨r + 1, Nat.succ_le_succ hr, heq.trans (by omega), ?_, fun j hj hlen => ?_⟩
      · rw [take_succ_cons, map_cons, sum_cons]
        omega
      · obtain ⟨i, rfl⟩ := Nat.exists_eq_succ_of_ne_zero (Nat.ne_zero_of_lt hj)
        have hi := hlargest i (by omega) (by simpa using hlen)
        rw [take_succ_cons, map_cons, sum_cons]
        omega

theorem rowsWithin_spec (hbudget : budget < usizeMax) (fixed : ℕ) (sizes : List ℕ) :
    (0 < rowsWithin fixed sizes budget →
        fixed + rowsLen (sizes.take (rowsWithin fixed sizes budget)) ≤ budget) ∧
      ∀ j, rowsWithin fixed sizes budget < j → j ≤ sizes.length →
        budget < fixed + rowsLen (sizes.take j) := by
  cases sizes with
  | nil =>
    have hzero : rowsWithin fixed [] budget = 0 := rfl
    rw [hzero]
    exact ⟨fun h => absurd h (lt_irrefl 0), fun j hj hlen => absurd hlen (Nat.not_le.mpr hj)⟩
  | cons len rest =>
    have hcons := @rowsWithinFrom_cons budget fixed 0 len hbudget rest
    rw [if_neg (lt_irrefl 0), Nat.add_zero] at hcons
    rw [rowsWithin, hcons]
    by_cases hover : budget < fixed + len
    · rw [if_pos hover]
      refine ⟨fun h => absurd h (lt_irrefl 0), fun j hj _ => ?_⟩
      obtain ⟨i, rfl⟩ := Nat.exists_eq_succ_of_ne_zero hj.ne'
      rw [take_succ_cons, rowsLen_cons]
      omega
    · rw [if_neg hover]
      obtain ⟨r, hr, heq, hfits, hlargest⟩ :=
        rowsWithinFrom_spec hbudget Nat.one_pos (Nat.not_lt.mp hover) rest
      have hsucc : 0 + 1 + r = r + 1 := by omega
      rw [heq, hsucc]
      refine ⟨fun _ => ?_, fun j hj hlen => ?_⟩
      · rw [take_succ_cons, rowsLen_cons]
        omega
      · obtain ⟨i, rfl⟩ := Nat.exists_eq_succ_of_ne_zero (Nat.ne_zero_of_lt hj)
        have hi := hlargest i (by omega) (by simpa using hlen)
        rw [take_succ_cons, rowsLen_cons]
        omega

/-! ## The envelope -/

def envelopeKeys : List String := ["truncated", "truncated_by", "next_cursor", "returned"]

theorem get?_mark (page : Page) (kept : ℕ) (had : Bool) (cursor name : String) :
    (mark page kept had cursor).get? name =
      if had = true ∧ name = "returned" then some (.number (toString kept))
      else if name = "next_cursor" then some (.string cursor)
      else if name = "truncated_by" then some (.string "bytes")
      else if name = "truncated" then some (.bool true)
      else page.get? name := by
  unfold mark
  cases had with
  | false => simp [get?_insert]
  | true => simp [get?_insert]

theorem get?_mark_of_notMem {page : Page} {kept : ℕ} {had : Bool} {cursor name : String}
    (h : name ∉ envelopeKeys) : (mark page kept had cursor).get? name = page.get? name := by
  simp only [envelopeKeys, mem_cons, not_mem_nil, or_false, not_or] at h
  rw [get?_mark, if_neg (fun hr => h.2.2.2 hr.2), if_neg h.2.2.1, if_neg h.2.1, if_neg h.1]

theorem len_mark_mark_le {page : Page} {kept all : ℕ} {had : Bool} {cursor longest : String}
    (hkept : kept ≤ all)
    (hcursor : serializedLen (.string cursor) ≤ serializedLen (.string longest)) :
    (mark (mark page all had longest) kept had cursor).len ≤ (mark page all had longest).len := by
  generalize hmarked : mark page all had longest = marked
  have hget := fun name => get?_mark page all had longest name
  rw [hmarked] at hget
  have htruncated := @Page.len_insert marked "truncated" (.bool true) (by simp [hget]) (.bool true)
  have hby := @Page.len_insert (marked.insert "truncated" (.bool true)) "truncated_by"
    (.string "bytes") (by simp [get?_insert, hget]) (.string "bytes")
  have hnext := @Page.len_insert
    ((marked.insert "truncated" (.bool true)).insert "truncated_by" (.string "bytes"))
    "next_cursor" (.string longest) (by simp [get?_insert, hget]) (.string cursor)
  cases had with
  | false =>
    rw [mark, if_neg (by decide)]
    omega
  | true =>
    have hreturned := @Page.len_insert
      (((marked.insert "truncated" (.bool true)).insert "truncated_by" (.string "bytes")).insert
        "next_cursor" (.string cursor)) "returned" (.number (toString all))
      (by simp [get?_insert, hget]) (.number (toString kept))
    have hcount := serializedLen_number_le hkept
    rw [mark, if_pos rfl]
    omega

/-! ## Pages that are cut -/

section Pages

variable {page : Page} {rowsKey : String} {rows : List Json} {rowCursors : List String}

/-- The page without its rows, marked with the longest cursor and the number of all rows. -/
def largestEnvelope (page : Page) (rowsKey : String) (rowCursors : List String) : Page :=
  mark (page.insert rowsKey (.array [])) rowCursors.length (hadReturned page)
    (longestCursor rowCursors)

/-- The page with so many of its rows, and the cursor to go on behind them. -/
def cutPage (page : Page) (rowsKey : String) (rows : List Json) (kept : ℕ) (cursor : String) :
    Page :=
  (mark page kept (hadReturned page) cursor).insert rowsKey (.array (rows.take kept))

/-- A page to cut: an array of rows with one cursor each, under a key of its own. -/
structure HasRows (page : Page) (rowsKey : String) (rows : List Json) (rowCursors : List String) :
    Prop where
  rows_eq : page.get? rowsKey = some (.array rows)
  cursors : rows.length = rowCursors.length
  key : rowsKey ∉ envelopeKeys

theorem insert_rows_again (h : page.get? rowsKey = some (.array rows)) :
    (page.insert rowsKey (.array [])).insert rowsKey (.array rows) = page := by
  apply ext_get?
  intro name
  rw [get?_insert, get?_insert]
  by_cases hname : name = rowsKey
  · rw [if_pos hname, hname, h]
  · rw [if_neg hname, if_neg hname]

theorem HasRows.hadReturned_eq (h : HasRows page rowsKey rows rowCursors) :
    hadReturned (page.insert rowsKey (.array [])) = hadReturned page := by
  have hne : "returned" ≠ rowsKey := by
    rintro rfl
    exact h.key (by decide)
  rw [hadReturned, get?_insert, if_neg hne, hadReturned]

theorem HasRows.len_page (h : HasRows page rowsKey rows rowCursors) :
    page.len = Page.len (page.insert rowsKey (.array [])) + rowsLen (rows.map serializedLen) := by
  have hinsert := Page.len_insert h.rows_eq (.array [])
  have hempty : serializedLen (.array []) = 2 := by decide
  rw [serializedLen_array, hempty] at hinsert
  omega

theorem mark_largestEnvelope (page : Page) (rowsKey : String) (rows : List Json)
    (rowCursors : List String) (kept : ℕ) (cursor : String) :
    (mark (largestEnvelope page rowsKey rowCursors) kept (hadReturned page) cursor).insert rowsKey
        (.array (rows.take kept)) = cutPage page rowsKey rows kept cursor := by
  apply ext_get?
  intro name
  rw [cutPage, get?_insert, get?_insert]
  split_ifs with hname
  · rfl
  · rw [get?_mark, get?_mark, largestEnvelope, get?_mark, get?_insert, if_neg hname]
    split_ifs <;> rfl

variable {cursor : String} {outside : ℕ}

theorem HasRows.len_cutPage_le (h : HasRows page rowsKey rows rowCursors) {kept : ℕ}
    (hkept : kept ≤ rows.length) (hcursor : serializedLen (.string cursor)
      ≤ serializedLen (.string (longestCursor rowCursors))) :
    (cutPage page rowsKey rows kept cursor).len ≤ (largestEnvelope page rowsKey rowCursors).len +
      rowsLen ((rows.map serializedLen).take kept) := by
  have hmark := @len_mark_mark_le (page.insert rowsKey (.array [])) kept rowCursors.length
    (hadReturned page) cursor (longestCursor rowCursors) (hkept.trans_eq h.cursors) hcursor
  have hget : (mark (largestEnvelope page rowsKey rowCursors) kept (hadReturned page)
      cursor).get? rowsKey = some (.array []) := by
    rw [get?_mark_of_notMem h.key, largestEnvelope, get?_mark_of_notMem h.key,
      get?_insert, if_pos rfl]
  have hinsert := Page.len_insert hget (.array (rows.take kept))
  have hempty : serializedLen (.array []) = 2 := by decide
  rw [mark_largestEnvelope, hempty, serializedLen_array, map_take] at hinsert
  rw [← largestEnvelope] at hmark
  omega

def keptRows (page : Page) (rowsKey : String) (rows : List Json) (rowCursors : List String)
    (budget outside : ℕ) : ℕ :=
  max (rowsWithin (saturatingAdd (largestEnvelope page rowsKey rowCursors).len outside)
    (rows.map serializedLen) budget) 1

theorem HasRows.fit_eq (h : HasRows page rowsKey rows rowCursors)
    (hlarge : budget < saturatingAdd page.len outside) :
    fit page rowsKey rowCursors budget outside =
      if rows.length ≤ 1 then (page, .ok false)
      else if rows.length ≤ keptRows page rowsKey rows rowCursors budget outside then
        (largestEnvelope page rowsKey rowCursors,
          .error "the byte budget estimate kept every row of a page that did not fit")
      else match rowCursors[keptRows page rowsKey rows rowCursors budget outside - 1]? with
        | none => (largestEnvelope page rowsKey rowCursors, .error "cursor for the last kept row")
        | some cursor => (cutPage page rowsKey rows
            (keptRows page rowsKey rows rowCursors budget outside) cursor, .ok true) := by
  rw [fit, if_neg (Nat.not_le.mpr hlarge), h.rows_eq]
  simp only [h.hadReturned_eq, insert_rows_again h.rows_eq, h.cursors, ne_eq, not_true_eq_false,
    if_false]
  rw [← largestEnvelope]
  simp only [mark_largestEnvelope]
  rfl

structure IsCut (page : Page) (rowsKey : String) (rows : List Json) (rowCursors : List String)
    (budget outside : ℕ) (result : Page) (kept : ℕ) : Prop where
  pos : 0 < kept
  fewer : kept < rows.length
  /-- The rows and the cursor of the last one of them. -/
  result_eq : ∃ cursor, rowCursors[kept - 1]? = some cursor ∧
    result = cutPage page rowsKey rows kept cursor
  within : 1 < kept → result.len + outside ≤ budget
  /-- No more rows fit beside the envelope at its largest. -/
  largest : ∀ more, kept < more → more ≤ rows.length →
    budget < (largestEnvelope page rowsKey rowCursors).len + outside +
      rowsLen ((rows.take more).map serializedLen)

section

variable (h : HasRows page rowsKey rows rowCursors)
include h

theorem HasRows.isCut_keptRows (hbudget : budget < usizeMax)
    (hcursors : ∀ cursor ∈ rowCursors,
      serializedLen (.string cursor) ≤ serializedLen (.string (longestCursor rowCursors)))
    (hfewer : keptRows page rowsKey rows rowCursors budget outside < rows.length)
    (hcursor : rowCursors[keptRows page rowsKey rows rowCursors budget outside - 1]? = some cursor) :
    IsCut page rowsKey rows rowCursors budget outside
      (cutPage page rowsKey rows (keptRows page rowsKey rows rowCursors budget outside) cursor)
      (keptRows page rowsKey rows rowCursors budget outside) := by
  obtain ⟨hfits, hlargest⟩ := rowsWithin_spec hbudget
    (saturatingAdd (largestEnvelope page rowsKey rowCursors).len outside) (rows.map serializedLen)
  refine
    { pos := le_max_right _ 1
      fewer := hfewer
      result_eq := ⟨cursor, hcursor, rfl⟩
      within := fun hmany => ?_
      largest := fun more hmore hlen => ?_ }
  · have hlen := h.len_cutPage_le hfewer.le (hcursors cursor (mem_of_getElem? hcursor))
    have hkept : keptRows page rowsKey rows rowCursors budget outside = _ :=
      max_eq_left ((lt_max_iff.mp hmany).resolve_right (lt_irrefl 1)).le
    have hrows := hfits (Nat.zero_lt_of_lt ((lt_max_iff.mp hmany).resolve_right (lt_irrefl 1)))
    rw [hkept] at hlen ⊢
    have hexact := (lt_saturatingAdd_iff hbudget
      (largestEnvelope page rowsKey rowCursors).len outside).not
    rw [Nat.not_lt, Nat.not_lt] at hexact
    have hsum := saturatingAdd_of_le hbudget (hexact.mp (by omega))
    omega
  · have hover := hlargest more ((le_max_left _ 1).trans_lt hmore) (by rw [length_map]; exact hlen)
    have hle : saturatingAdd (largestEnvelope page rowsKey rowCursors).len outside
        ≤ (largestEnvelope page rowsKey rowCursors).len + outside := min_le_left _ _
    rw [map_take]
    omega

/-- The budget estimate never keeps all rows of a page that is too large, unless the cut makes the
envelope shorter. -/
theorem HasRows.keptRows_lt (hbudget : budget < usizeMax)
    (hgrows : Page.len (page.insert rowsKey (.array [])) ≤ (largestEnvelope page rowsKey rowCursors).len)
    (hmany : 1 < rows.length) (hlarge : budget < page.len + outside) :
    keptRows page rowsKey rows rowCursors budget outside < rows.length := by
  by_contra hall
  have hrows : rows.length ≤ rowsWithin
      (saturatingAdd (largestEnvelope page rowsKey rowCursors).len outside)
      (rows.map serializedLen) budget :=
    (le_max_iff.mp (Nat.not_lt.mp hall)).resolve_right (Nat.not_le.mpr hmany)
  have hfits := (rowsWithin_spec hbudget
    (saturatingAdd (largestEnvelope page rowsKey rowCursors).len outside)
    (rows.map serializedLen)).1 (by omega)
  rw [take_of_length_le (by rwa [length_map])] at hfits
  have hexact := (lt_saturatingAdd_iff hbudget
    (largestEnvelope page rowsKey rowCursors).len outside).not
  rw [Nat.not_lt, Nat.not_lt] at hexact
  have hsum := saturatingAdd_of_le hbudget (hexact.mp (by omega))
  have hpage := h.len_page
  omega

theorem HasRows.fit_of_keptRows {kept : ℕ} (hlarge : budget < saturatingAdd page.len outside)
    (hmany : 1 < rows.length) (hkept : keptRows page rowsKey rows rowCursors budget outside = kept)
    (hfewer : kept < rows.length) (hcursor : rowCursors[kept - 1]? = some cursor) :
    fit page rowsKey rowCursors budget outside =
      (cutPage page rowsKey rows kept cursor, .ok true) := by
  rw [h.fit_eq hlarge, if_neg (Nat.not_le.mpr hmany), hkept, if_neg (Nat.not_le.mpr hfewer),
    hcursor]

end

end Pages

/-- A page that fits, or of one row, stays as it is. Any other is cut to the most rows that fit
beside the largest envelope, one at least: no cut makes the page larger than that estimate as long
as the longest cursor is also the longest as JSON, and none fails as long as the fields that the cut
rewrites do not become shorter. -/
theorem fit_cuts (page : Page) (rowsKey : String) (rows : List Json) (rowCursors : List String)
    (budget outside : ℕ) (h : HasRows page rowsKey rows rowCursors) (hbudget : budget < usizeMax)
    (hcursors : ∀ cursor ∈ rowCursors,
      serializedLen (.string cursor) ≤ serializedLen (.string (longestCursor rowCursors)))
    (hgrows : Page.len (page.insert rowsKey (.array []))
      ≤ (largestEnvelope page rowsKey rowCursors).len) :
    if page.len + outside ≤ budget ∨ rows.length ≤ 1 then
      fit page rowsKey rowCursors budget outside = (page, .ok false)
    else ∃ result kept, fit page rowsKey rowCursors budget outside = (result, .ok true) ∧
      IsCut page rowsKey rows rowCursors budget outside result kept := by
  have hfits := (lt_saturatingAdd_iff hbudget page.len outside).not
  rw [Nat.not_lt, Nat.not_lt] at hfits
  split_ifs with hkeep
  · by_cases hsmall : saturatingAdd page.len outside ≤ budget
    · rw [fit, if_pos hsmall]
    · have hone := hkeep.resolve_left (fun hfit => hsmall (hfits.mpr hfit))
      rw [h.fit_eq (Nat.not_le.mp hsmall), if_pos hone]
  · obtain ⟨hlarge, hmany⟩ := not_or.mp hkeep
    have hkept := h.keptRows_lt hbudget hgrows (Nat.not_le.mp hmany) (Nat.not_le.mp hlarge)
    have hpos : 0 < keptRows page rowsKey rows rowCursors budget outside := le_max_right _ 1
    have hlt : keptRows page rowsKey rows rowCursors budget outside - 1 < rowCursors.length := by
      rw [← h.cursors]
      omega
    have hcursor := List.getElem?_eq_getElem hlt
    refine ⟨_, _, ?_, h.isCut_keptRows hbudget hcursors hkept hcursor⟩
    exact h.fit_of_keptRows (Nat.not_le.mp (fun hsat => hlarge (hfits.mp hsat)))
      (Nat.not_le.mp hmany) rfl hkept hcursor

def sampleRows : List Json :=
  [.number "1", .number "2", .string
    "xxxxxxxxxxxxxxxxxxxxxxxxxxxxxxxxxxxxxxxxxxxxxxxxxxxxxxxxxxxxxxxxxxxxxxxxxxxxxxx"]

def samplePage (rows : List Json) : Page := OrderedMap.empty.insert "rows" (.array rows)

theorem hasRows_samplePage {rows : List Json} {rowCursors : List String}
    (h : rows.length = rowCursors.length) :
    HasRows (samplePage rows) "rows" rows rowCursors :=
  ⟨by rw [samplePage, get?_insert, if_pos rfl], h, by decide⟩

theorem fit_cuts_sample :
    ∃ result kept, fit (samplePage sampleRows) "rows" ["a", "b", "c"] 75 0 = (result, .ok true) ∧
      IsCut (samplePage sampleRows) "rows" sampleRows ["a", "b", "c"] 75 0 result kept := by
  have hcut := fit_cuts (samplePage sampleRows) "rows" sampleRows ["a", "b", "c"] 75 0
    (hasRows_samplePage rfl) (by decide) (by decide) (by decide +kernel)
  rwa [if_neg (by decide +kernel)] at hcut

def quotes : String := "\"\"\"\"\"\"\"\""

def quotesPage : Page := mark (samplePage [.number "1", .number "2"]) 2 false quotes

/-- A cursor of quotes is short in bytes and long as JSON, and the page kept with it is over the
budget. A cursor that no kept row hands on costs a row that would fit. A page whose own cursor is
longer as JSON than the row cursors cannot be cut at all. -/
theorem fit_over_budget :
    (fit (samplePage sampleRows) "rows" ["a", quotes, "ccccccccc"] 80 0 =
        (cutPage (samplePage sampleRows) "rows" sampleRows 2 quotes, .ok true) ∧
      80 < (cutPage (samplePage sampleRows) "rows" sampleRows 2 quotes).len) ∧
    (fit (samplePage sampleRows) "rows" ["a", "b", "cccccccccc"] 75 0 =
        (cutPage (samplePage sampleRows) "rows" sampleRows 1 "a", .ok true) ∧
      (cutPage (samplePage sampleRows) "rows" sampleRows 2 "b").len ≤ 75) ∧
    (fit quotesPage "rows" ["aaaaaaaa", "bbbbbbbb"] 85 0).2 =
      .error "the byte budget estimate kept every row of a page that did not fit" := by
  have hrows : ∀ {rowCursors : List String}, sampleRows.length = rowCursors.length →
      HasRows (samplePage sampleRows) "rows" sampleRows rowCursors := hasRows_samplePage
  refine ⟨⟨?_, by decide +kernel⟩, ⟨?_, by decide +kernel⟩, ?_⟩
  · exact (hrows rfl).fit_of_keptRows (by decide +kernel) (by decide) (by decide +kernel)
      (by decide) rfl
  · exact (hrows rfl).fit_of_keptRows (by decide +kernel) (by decide) (by decide +kernel)
      (by decide) rfl
  · have htwo : HasRows quotesPage "rows" [.number "1", .number "2"] ["aaaaaaaa", "bbbbbbbb"] :=
      ⟨by rw [quotesPage, get?_mark_of_notMem (by decide), samplePage, get?_insert,
        if_pos rfl], rfl, by decide⟩
    rw [htwo.fit_eq (by decide +kernel), if_neg (by decide), if_pos (by decide +kernel)]

end Sipnab.Mcp
