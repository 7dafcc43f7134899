import Sipnab.Lib.KeysetPages
import Sipnab.Sip.DialogStore

/-!
# Pages of changed dialogs

A poller reads the dialogs in pages, oldest update first, and resumes behind the update and the
Call-ID of the last one it was given. Where messages are grouped by branch two dialogs can share
both, and a page that ends between them loses the second.
-/

namespace Sipnab

open Text KeysetPages List

def cursorSep : Char := '|'

structure Cursor where
  instant : DateTime
  id : Option String

def Cursor.precedes (c : Cursor) (instant : DateTime) (id : String) : Bool :=
  match c.id with
  | none => decide (c.instant < instant)
  | some prev => decide (c.instant < instant) || (decide (instant = c.instant) && decide (prev < id))

structure Rfc3339 where
  render : DateTime → String
  parse : String → Except String DateTime

namespace Rfc3339

variable (chrono : Rfc3339)

def parseInstant (raw : String) : Except String DateTime :=
  (chrono.parse raw).mapError (fun e => "'" ++ raw ++ "' is not RFC 3339: " ++ e)

def parseCursor (raw : String) : Except String Cursor :=
  let (ts, id) := match splitOnce cursorSep raw.toList with
    | some (ts, id) => (String.ofList ts, some (String.ofList id))
    | none => (raw, none)
  match chrono.parseInstant ts with
  | .ok instant => .ok { instant, id }
  | .error e => .error ("cursor timestamp " ++ e)

def formatCursor (instant : DateTime) (id : String) : String :=
  chrono.render instant ++ String.singleton cursorSep ++ id

/-- The text of the instant is read as it, and has no separator. -/
def RoundTrips (instant : DateTime) : Prop :=
  chrono.parse (chrono.render instant) = .ok instant ∧ cursorSep ∉ (chrono.render instant).toList

theorem parseCursor_formatCursor {instant : DateTime} (h : chrono.RoundTrips instant) (id : String) :
    chrono.parseCursor (chrono.formatCursor instant id) = .ok ⟨instant, some id⟩ := by
  have htext : (chrono.formatCursor instant id).toList =
      (chrono.render instant).toList ++ cursorSep :: id.toList := by
    simp [formatCursor]
  rw [parseCursor, htext, splitOnce_append_cons h.2]
  dsimp only
  rw [String.ofList_toList, String.ofList_toList, parseInstant, h.1]
  rfl

end Rfc3339

namespace DialogStore

variable (chrono : Rfc3339) (store : DialogStore) (limit : ℕ)

/-- Those updated behind the cursor, oldest update first and Call-IDs in order, up to the limit, and
the cursor to resume from. -/
def tailPage (cursor : Option Cursor) : List SipDialog × Option String :=
  let changed := store.dialogs.values.filter
    (fun d => cursor.all (fun c => c.precedes d.updatedAt d.callId))
  let sorted := changed.mergeSort (fun a b => decide (a.updatedAt < b.updatedAt) ||
    (decide (a.updatedAt = b.updatedAt) && decide (a.callId ≤ b.callId)))
  let page := sorted.take limit
  (page, page.getLast?.map (fun d => chrono.formatCursor d.updatedAt d.callId))

/-- Page after page, each from the cursor of the one before, until one is empty. -/
def tailWalk : ℕ → Option Cursor → Option (List SipDialog)
  | 0, _ => none
  | fuel + 1, cursor =>
    match tailPage chrono store limit cursor with
    | (_, none) => some []
    | (page, some next) =>
      match chrono.parseCursor next with
      | .error _ => none
      | .ok cursor => (tailWalk fuel (some cursor)).map (page ++ ·)

def tailKey (d : SipDialog) : ℤ ×ₗ String := toLex (d.updatedAt, d.callId)

def behindCursor : Option SipDialog → List SipDialog
  | none => store.dialogs.values
  | some last => behind tailKey (tailKey last) store.dialogs.values

def cursorOf (d : SipDialog) : Cursor := ⟨d.updatedAt, some d.callId⟩

theorem filter_precedes (last : Option SipDialog) :
    store.dialogs.values.filter
      (fun d => (last.map cursorOf).all (fun c => c.precedes d.updatedAt d.callId)) =
      behindCursor store last := by
  cases last with
  | none => simp [behindCursor]
  | some last =>
    rw [behindCursor, behind]
    refine filter_congr (fun d _ => ?_)
    rw [Bool.eq_iff_iff]
    simp only [Option.map_some, Option.all_some, cursorOf, Cursor.precedes, Bool.or_eq_true,
      Bool.and_eq_true, decide_eq_true_eq, tailKey, Prod.Lex.toLex_lt_toLex]
    rw [eq_comm (a := d.updatedAt)]

theorem sortByKey_tailKey (ds : List SipDialog) :
    ds.mergeSort (fun a b => decide (a.updatedAt < b.updatedAt) ||
      (decide (a.updatedAt = b.updatedAt) && decide (a.callId ≤ b.callId))) =
      sortByKey tailKey ds := by
  have hle : (fun a b : SipDialog => decide (a.updatedAt < b.updatedAt) ||
      (decide (a.updatedAt = b.updatedAt) && decide (a.callId ≤ b.callId))) =
      (fun a b => decide (tailKey a ≤ tailKey b)) := by
    funext a b
    rw [Bool.eq_iff_iff]
    simp [tailKey, Prod.Lex.toLex_le_toLex]
  rw [sortByKey, hle]

theorem tailPage_eq (last : Option SipDialog) :
    tailPage chrono store limit (last.map cursorOf) =
      (page tailKey limit (behindCursor store last),
        (page tailKey limit (behindCursor store last)).getLast?.map
          (fun d => chrono.formatCursor d.updatedAt d.callId)) := by
  rw [tailPage, filter_precedes, sortByKey_tailKey]
  rfl

theorem behindCursor_next {last : Option SipDialog} {d : SipDialog} (hd : d ∈ behindCursor store last) :
    behind tailKey (tailKey d) (behindCursor store last) = behindCursor store (some d) := by
  cases last with
  | none => rfl
  | some last =>
    have hlt : tailKey last < tailKey d := of_decide_eq_true (mem_filter.mp hd).2
    rw [behindCursor, behindCursor, behind, behind, List.filter_filter]
    refine filter_congr (fun e _ => ?_)
    rw [Bool.eq_iff_iff, Bool.and_eq_true, decide_eq_true_eq, decide_eq_true_eq]
    exact ⟨fun h => h.1, fun h => ⟨h, hlt.trans h⟩⟩

theorem tailWalk_eq (hround : ∀ d ∈ store.dialogs.values, chrono.RoundTrips d.updatedAt)
    (last : Option SipDialog) (fuel : ℕ) (hfuel : (behindCursor store last).length < fuel) :
    tailWalk chrono store limit fuel (last.map cursorOf) =
      some (visitAll tailKey limit (behindCursor store last)) := by
  induction fuel generalizing last with
  | zero => exact absurd hfuel (Nat.not_lt_zero _)
  | succ fuel ih =>
    rw [tailWalk, tailPage_eq]
    cases hend : (page tailKey limit (behindCursor store last)).getLast? with
    | none =>
      rw [visitAll_of_none hend]
      rfl
    | some d =>
      have hmem := mem_of_getLast?_page tailKey hend
      have hheld : d ∈ store.dialogs.values := by
        cases last with
        | none => exact hmem
        | some last => exact (mem_filter.mp hmem).1
      have hshorter := length_behind_lt tailKey hmem
      rw [behindCursor_next store hmem] at hshorter
      rw [Option.map_some]
      dsimp only
      rw [chrono.parseCursor_formatCursor (hround d hheld)]
      dsimp only
      rw [show some (⟨d.updatedAt, some d.callId⟩ : Cursor) = (some d).map cursorOf from rfl,
        ih (some d) (by omega), visitAll_of_some hend, behindCursor_next store hmem]
      rfl

/-- No page ends between two dialogs with one update and one Call-ID. -/
def PagesApart : Prop := PageEndsApart limit (sortedKeys tailKey store.dialogs.values)

/-- The walk ends, reads the dialogs in the order of their updates, and reads each of them exactly
once if and only if no page ends between two with one update and one Call-ID. -/
theorem tail_walk_complete_iff (hlimit : 0 < limit)
    (hround : ∀ d ∈ store.dialogs.values, chrono.RoundTrips d.updatedAt) :
    ∃ visited, (∀ fuel, store.dialogs.length < fuel →
        tailWalk chrono store limit fuel none = some visited) ∧
      visited.Pairwise (fun a b => a.updatedAt ≤ b.updatedAt) ∧
      (visited.Perm store.dialogs.values ↔ PagesApart store limit) := by
  refine ⟨visitAll tailKey limit store.dialogs.values, ?_, ?_, visitAll_perm_iff tailKey hlimit _⟩
  · intro fuel hfuel
    refine tailWalk_eq chrono store limit hround none fuel ?_
    rw [behindCursor, IndexMap.values, length_map]
    exact hfuel
  · refine (pairwise_visitAll tailKey limit _).1.imp (fun h => ?_)
    rw [tailKey, tailKey, Prod.Lex.toLex_le_toLex] at h
    rcases h with hlt | ⟨heq, -⟩
    · exact hlt.le
    · exact heq.le

section
open SipMessage (plainRequest)

def epochText : Rfc3339 where
  render _ := "1970-01-01T00:00:00Z"
  parse raw := if raw = "1970-01-01T00:00:00Z" then .ok 0 else .error "input contains invalid characters"

/-- One INVITE seen on both sides of a proxy, tracked by branch. -/
def twoUnits : DialogStore :=
  [plainRequest "a" 1 .invite "z1" "", plainRequest "a" 1 .invite "z2" ""].foldl
    (processMessage (.plain 10)) { tracking := .branch, maxDialogs := 5, rotate := true }

theorem twoUnits_facts : twoUnits.dialogs.length = 2 ∧
    twoUnits.dialogs.values.map SipDialog.updatedAt = [0, 0] ∧
    twoUnits.dialogs.values.map tailKey = List.replicate 2 (toLex (0, "a")) := by
  decide +kernel

theorem roundTrips_twoUnits : ∀ d ∈ twoUnits.dialogs.values, epochText.RoundTrips d.updatedAt := by
  intro d hd
  have hmem : d.updatedAt ∈ twoUnits.dialogs.values.map SipDialog.updatedAt := List.mem_map_of_mem hd
  rw [twoUnits_facts.2.1] at hmem
  have hzero : d.updatedAt = 0 := by simpa using hmem
  rw [hzero]
  exact ⟨rfl, by decide⟩

/-- In one page both are read. -/
theorem tail_walk_complete_iff_twoUnits :
    ∃ visited, tailWalk epochText twoUnits 2 3 none = some visited ∧
      visited.Perm twoUnits.dialogs.values := by
  obtain ⟨visited, hwalk, -, hperm⟩ :=
    tail_walk_complete_iff epochText twoUnits 2 (by decide) roundTrips_twoUnits
  refine ⟨visited, hwalk 3 (by rw [twoUnits_facts.1]; decide), hperm.mpr ?_⟩
  intro k c hc
  have hlength : (sortedKeys tailKey twoUnits.dialogs.values).length = 2 := by
    rw [sortedKeys, length_mergeSort, length_map, IndexMap.values, length_map]
    exact twoUnits_facts.1
  have hlt := (List.getElem?_eq_some_iff.mp hc).1
  omega

/-- In pages of one the second is lost. -/
theorem not_complete_two_units :
    ∃ visited, tailWalk epochText twoUnits 1 3 none = some visited ∧
      ¬ visited.Perm twoUnits.dialogs.values := by
  have hwalk := tailWalk_eq epochText twoUnits 1 roundTrips_twoUnits none 3 (by
    rw [behindCursor, IndexMap.values, length_map]
    exact lt_of_eq_of_lt twoUnits_facts.1 (by decide))
  refine ⟨_, hwalk, fun hperm => ?_⟩
  have hkeys : sortedKeys tailKey twoUnits.dialogs.values = List.replicate 2 (toLex (0, "a")) := by
    rw [← perm_replicate, ← twoUnits_facts.2.2]
    exact mergeSort_perm _ _
  have hapart := (visitAll_perm_iff tailKey (by decide) _).mp hperm
  rw [behindCursor, hkeys] at hapart
  exact hapart 0 (toLex (0, "a")) rfl rfl

end

end DialogStore

end Sipnab
