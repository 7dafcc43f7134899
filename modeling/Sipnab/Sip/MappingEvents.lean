import Sipnab.Sip.TopologyHiding

/-!
# Announced mappings over a run

Each event names the two Call-IDs of a call. Two events that give a Call-ID different partners
cannot both be right, so that neither of their pairs is to join. A pair that is refused is not
written down: a later pair with one of its Call-IDs is added as if it had not come.
-/

namespace Sipnab

open List Option IndexMap

structure ThMapping where
  callerCallId : String
  calleeCallId : String
  deriving DecidableEq

inductive Insert
  | added
  | duplicate
  | conflict
  | full
  deriving DecidableEq

namespace ThMappingTable

def contradict (t : ThMappingTable) (caller : String) : ThMappingTable :=
  match t.byCaller.get? caller with
  | some e => { t with byCaller := t.byCaller.insert caller { e with conflicted := true } }
  | none => t

def insert (t : ThMappingTable) (m : ThMapping) (now : DateTime) : Insert × ThMappingTable :=
  let heldForCaller := t.byCaller.get? m.callerCallId
  let heldForCallee := t.byCallee.get? m.calleeCallId
  if heldForCaller.any (fun e => !e.conflicted && e.callee == m.calleeCallId) then (.duplicate, t)
  else if heldForCaller.isNone && heldForCallee.isNone then
    if t.max ≤ t.byCaller.length then (.full, t)
    else (.added,
      { t with
        byCaller := t.byCaller.insert m.callerCallId ⟨m.calleeCallId, now, false⟩
        byCallee := t.byCallee.insert m.calleeCallId m.callerCallId })
  else
    let t := t.contradict m.callerCallId
    (.conflict, match heldForCallee with
      | some other => t.contradict other
      | none => t)

/-- The callee of a caller's mapping, and whether the mapping was contradicted. -/
def look (t : ThMappingTable) (caller : String) : Option (String × Bool) :=
  (t.byCaller.get? caller).map (fun e => (e.callee, e.conflicted))

variable {t : ThMappingTable} {m : ThMapping} {now : DateTime}

theorem joined_iff_look (t : ThMappingTable) (caller callee : String) :
    t.joined caller callee ↔ t.look caller = some (callee, false) := by
  rw [joined, look, map_eq_some_iff]
  constructor
  · rintro ⟨e, he, hjoins, hcallee⟩
    exact ⟨e, he, by rw [hjoins, hcallee]⟩
  · rintro ⟨e, he, heq⟩
    obtain ⟨hcallee, hjoins⟩ := Prod.mk.inj heq
    exact ⟨e, he, hjoins, hcallee⟩

theorem look_eq_none_iff {caller : String} :
    t.look caller = none ↔ t.byCaller.get? caller = none := map_eq_none_iff

theorem look_contradict (t : ThMappingTable) (caller k : String) :
    (t.contradict caller).look k = (t.look k).map (fun p => (p.1, p.2 || k == caller)) := by
  unfold contradict
  cases hget : t.byCaller.get? caller with
  | none =>
    by_cases hk : k = caller
    · have hnone : t.look k = none := by
        rw [hk]
        exact look_eq_none_iff.mpr hget
      rw [hnone]
      rfl
    · rw [beq_eq_false_iff_ne.mpr hk]
      simp only [Bool.or_false, Option.map_id']
  | some e =>
    rw [look, look, get?_insert]
    by_cases hk : k = caller
    · rw [if_pos hk, hk, hget]
      simp
    · rw [if_neg hk, beq_eq_false_iff_ne.mpr hk]
      simp only [Bool.or_false, Option.map_id']

theorem byCallee_contradict (t : ThMappingTable) (caller : String) :
    (t.contradict caller).byCallee = t.byCallee := by
  unfold contradict
  split <;> rfl

/-- What an event can do to a table with room: repeat a pair that joins, add a pair of new
Call-IDs, or contradict the mappings that hold them. -/
theorem insert_cases (t : ThMappingTable) (m : ThMapping) (now : DateTime)
    (hroom : (t.insert m now).1 ≠ .full) :
    (t.look m.callerCallId = some (m.calleeCallId, false) ∧ (t.insert m now).2 = t) ∨
      (t.look m.callerCallId = none ∧ t.byCallee.get? m.calleeCallId = none ∧
        (∀ k, (t.insert m now).2.look k
          = if k = m.callerCallId then some (m.calleeCallId, false) else t.look k) ∧
        ∀ k, (t.insert m now).2.byCallee.get? k
          = if k = m.calleeCallId then some m.callerCallId else t.byCallee.get? k) ∨
      (t.look m.callerCallId ≠ some (m.calleeCallId, false) ∧
        ¬ (t.look m.callerCallId = none ∧ t.byCallee.get? m.calleeCallId = none) ∧
        (∀ k, (t.insert m now).2.look k = (t.look k).map (fun p =>
          (p.1, p.2 || k == m.callerCallId || t.byCallee.get? m.calleeCallId == some k))) ∧
        ∀ k, (t.insert m now).2.byCallee.get? k = t.byCallee.get? k) := by
  have hdup : ((t.byCaller.get? m.callerCallId).any
      (fun e => !e.conflicted && e.callee == m.calleeCallId)) = true ↔
      t.look m.callerCallId = some (m.calleeCallId, false) := by
    rw [look]
    cases t.byCaller.get? m.callerCallId with
    | none => simp
    | some e =>
      simp only [any_some, Bool.and_eq_true, Bool.not_eq_true', beq_iff_eq, map_some,
        Option.some.injEq, Prod.mk.injEq]
      exact and_comm
  have hnew : ((t.byCaller.get? m.callerCallId).isNone
      && (t.byCallee.get? m.calleeCallId).isNone) = true ↔
      t.look m.callerCallId = none ∧ t.byCallee.get? m.calleeCallId = none := by
    rw [look_eq_none_iff, Bool.and_eq_true, isNone_iff_eq_none, isNone_iff_eq_none]
  unfold insert at hroom ⊢
  by_cases hd : t.look m.callerCallId = some (m.calleeCallId, false)
  · rw [if_pos (hdup.mpr hd)]
    exact Or.inl ⟨hd, rfl⟩
  rw [if_neg (fun h => hd (hdup.mp h))] at hroom ⊢
  by_cases hn : t.look m.callerCallId = none ∧ t.byCallee.get? m.calleeCallId = none
  · rw [if_pos (hnew.mpr hn)] at hroom ⊢
    by_cases hfull : t.max ≤ t.byCaller.length
    · rw [if_pos hfull] at hroom
      exact absurd rfl hroom
    · rw [if_neg hfull]
      refine Or.inr (Or.inl ⟨hn.1, hn.2, fun k => ?_, fun k => get?_insert _ _ _ _⟩)
      rw [look, get?_insert]
      split
      · rfl
      · rfl
  · rw [if_neg (fun h => hn (hnew.mp h))]
    refine Or.inr (Or.inr ⟨hd, hn, ?_, ?_⟩)
    · intro k
      cases hother : t.byCallee.get? m.calleeCallId with
      | none =>
        rw [look_contradict]
        simp
      | some other =>
        rw [look_contradict, look_contradict, Option.map_map]
        have hsame : (k == other) = (some other == some k) := by
          rw [Bool.eq_iff_iff, beq_iff_eq, beq_iff_eq, Option.some.injEq, eq_comm]
        rw [← hsame]
        rfl
    · intro k
      cases t.byCallee.get? m.calleeCallId with
      | none => rw [byCallee_contradict]
      | some other => rw [byCallee_contradict, byCallee_contradict]

/-! ## Events and sweeps -/

inductive Op
  | event (m : ThMapping) (now : DateTime)
  | sweep (now : DateTime) (present : String → Bool)

namespace Op

def events : Op → List ThMapping
  | .event m _ => [m]
  | .sweep _ _ => []

def step (t : ThMappingTable) : Op → ThMappingTable
  | .event m now => (t.insert m now).2
  | .sweep now present => t.sweep now present

/-- The table has room for the event; the sweep finds no mapping whose time is over. -/
def Within (t : ThMappingTable) : Op → Prop
  | .event m now => (t.insert m now).1 ≠ .full
  | .sweep now present => ∀ p ∈ t.byCaller.entries,
      present p.1 = true ∨ present p.2.callee = true ∨ now - p.2.touched ≤ t.ttl

end Op

theorem sweep_keeps {present : String → Bool} (h : (Op.sweep now present).Within t) :
    (∀ k, (t.sweep now present).look k = t.look k) ∧
      (t.sweep now present).byCallee = t.byCallee := by
  have hgone : ∀ p ∈ t.byCaller.entries,
      (!(present p.1 || present p.2.callee) && decide (t.ttl < now - p.2.touched)) = false := by
    intro p hp
    obtain hcaller | hcallee | hfresh := h p hp
    · simp [hcaller]
    · simp [hcallee]
    · have hnot : ¬ t.ttl < now - p.2.touched := Int.not_lt.mpr hfresh
      rw [decide_eq_false hnot, Bool.and_false]
  have hkept : t.byCaller.filter (fun p =>
      !(!(present p.1 || present p.2.callee) && decide (t.ttl < now - p.2.touched)))
        = t.byCaller := by
    apply IndexMap.ext
    exact filter_eq_self.mpr (fun p hp => by rw [hgone p hp]; rfl)
  have hnone : t.byCaller.entries.filter (fun p =>
      !(present p.1 || present p.2.callee) && decide (t.ttl < now - p.2.touched)) = [] :=
    filter_eq_nil_iff.mpr (fun p hp => by rw [hgone p hp]; exact Bool.false_ne_true)
  constructor
  · intro k
    rw [look, sweep]
    rw [hkept, get?_mapValues, Option.map_map, look]
    congr 1
    funext e
    dsimp only [Function.comp]
    split <;> rfl
  · rw [sweep]
    rw [hnone]
    apply IndexMap.ext
    exact filter_eq_self.mpr (fun p _ => rfl)

/-! ## Runs -/

def Contradicts (q p : ThMapping) : Prop :=
  (q.callerCallId = p.callerCallId ∧ q.calleeCallId ≠ p.calleeCallId) ∨
    (q.calleeCallId = p.calleeCallId ∧ q.callerCallId ≠ p.callerCallId)

/-- The pairs that join are those received that no event received contradicts. -/
def Faithful (t : ThMappingTable) (received : List ThMapping) : Prop :=
  ∀ p : ThMapping, t.joined p.callerCallId p.calleeCallId ↔
    p ∈ received ∧ ∀ q ∈ received, ¬ Contradicts q p

/-- Before an event whose Call-IDs are both new to the table no event named one of them. -/
def Fresh (t : ThMappingTable) (received : List ThMapping) : Op → Prop
  | .event m _ => t.look m.callerCallId = none → t.byCallee.get? m.calleeCallId = none →
      ∀ q ∈ received, ¬ Contradicts q m
  | .sweep _ _ => True

/-- A property of a table and the events received, in every state of a run. -/
def Throughout (P : ThMappingTable → List ThMapping → Prop) :
    ThMappingTable → List ThMapping → List Op → Prop
  | t, received, [] => P t received
  | t, received, op :: ops => P t received ∧ Throughout P (op.step t) (received ++ op.events) ops

/-- A property of a table, the events received and the next step, at every step of a run. -/
def AtEach (P : ThMappingTable → List ThMapping → Op → Prop) :
    ThMappingTable → List ThMapping → List Op → Prop
  | _, _, [] => True
  | t, received, op :: ops =>
    P t received op ∧ AtEach P (op.step t) (received ++ op.events) ops

/-- What holds between a table and the events it received, when no new pair is contradicted by an
event before it. -/
structure Tracks (t : ThMappingTable) (received : List ThMapping) : Prop where
  received_of_look : ∀ {a x c}, t.look a = some (x, c) → ⟨a, x⟩ ∈ received
  callee_iff : ∀ {a x}, t.byCallee.get? x = some a ↔ ∃ c, t.look a = some (x, c)
  conflicted_iff : ∀ {a x c}, t.look a = some (x, c) →
    (c = true ↔ ∃ q ∈ received, Contradicts q ⟨a, x⟩)
  held_or : ∀ p ∈ received, (∃ c, t.look p.callerCallId = some (p.calleeCallId, c)) ∨
    ∃ q ∈ received, Contradicts q p

theorem Tracks.faithful {received : List ThMapping} (h : Tracks t received) :
    Faithful t received := by
  intro p
  rw [joined_iff_look]
  constructor
  · intro hlook
    refine ⟨h.received_of_look hlook, fun q hq hcontra => ?_⟩
    cases (h.conflicted_iff hlook).mpr ⟨q, hq, hcontra⟩
  · rintro ⟨hp, hnone⟩
    obtain ⟨c, hlook⟩ | ⟨q, hq, hcontra⟩ := h.held_or p hp
    · cases c with
      | false => exact hlook
      | true =>
        obtain ⟨q, hq, hcontra⟩ := (h.conflicted_iff hlook).mp rfl
        exact absurd hcontra (hnone q hq)
    · exact absurd hcontra (hnone q hq)

theorem tracks_new (max ttlSecs : ℕ) : Tracks (new max ttlSecs) [] where
  received_of_look h := (by cases h)
  callee_iff := ⟨fun h => (by cases h), fun ⟨_, h⟩ => (by cases h)⟩
  conflicted_iff h := (by cases h)
  held_or _ h := (by cases h)

theorem Tracks.congr {t' : ThMappingTable} {received : List ThMapping} (h : Tracks t received)
    (hlook : ∀ k, t'.look k = t.look k) (hcallee : ∀ k, t'.byCallee.get? k = t.byCallee.get? k) :
    Tracks t' received where
  received_of_look hk := h.received_of_look (hlook _ ▸ hk)
  callee_iff := by
    intro a x
    rw [hcallee, h.callee_iff, hlook]
  conflicted_iff hk := h.conflicted_iff (hlook _ ▸ hk)
  held_or p hp := by
    rw [hlook]
    exact h.held_or p hp

theorem not_contradicts_self (p : ThMapping) : ¬ Contradicts p p := by
  rintro (⟨-, h⟩ | ⟨-, h⟩) <;> exact h rfl

section
variable {t' : ThMappingTable} {received : List ThMapping}

theorem exists_contradicts_append {p : ThMapping} (h : ∃ q ∈ received, Contradicts q p) :
    ∃ q ∈ received ++ [m], Contradicts q p := by
  obtain ⟨q, hq, hcontra⟩ := h
  exact ⟨q, mem_append_left _ hq, hcontra⟩

theorem Tracks.repeated (h : Tracks t received)
    (hdup : t.look m.callerCallId = some (m.calleeCallId, false)) :
    Tracks t (received ++ [m]) := by
  have hm : m ∈ received := h.received_of_look hdup
  have hsame : ∀ q, q ∈ received ++ [m] ↔ q ∈ received := by
    intro q
    rw [mem_append, mem_singleton, or_iff_left_of_imp]
    rintro rfl
    exact hm
  exact
    { received_of_look := fun hk => (hsame _).mpr (h.received_of_look hk)
      callee_iff := h.callee_iff
      conflicted_iff := by
        intro a x c hk
        simp only [hsame]
        exact h.conflicted_iff hk
      held_or := by
        simp only [hsame]
        exact h.held_or }

theorem Tracks.added (h : Tracks t received) (hcaller : t.look m.callerCallId = none)
    (hcallee : t.byCallee.get? m.calleeCallId = none)
    (hlook : ∀ k, t'.look k
      = if k = m.callerCallId then some (m.calleeCallId, false) else t.look k)
    (hback : ∀ k, t'.byCallee.get? k
      = if k = m.calleeCallId then some m.callerCallId else t.byCallee.get? k)
    (hnew : ∀ q ∈ received, ¬ Contradicts q m) : Tracks t' (received ++ [m]) := by
  have hlast : m ∈ received ++ [m] := mem_append_right _ (mem_singleton_self m)
  -- Another mapping's Call-IDs are not those of the event.
  have hapart : ∀ {a x c}, t.look a = some (x, c) → a ≠ m.callerCallId ∧ x ≠ m.calleeCallId := by
    intro a x c hk
    refine ⟨?_, ?_⟩
    · rintro rfl
      rw [hcaller] at hk
      cases hk
    · rintro rfl
      rw [h.callee_iff.mpr ⟨c, hk⟩] at hcallee
      cases hcallee
  have hcases : ∀ {a x c}, t'.look a = some (x, c) →
      (a = m.callerCallId ∧ x = m.calleeCallId ∧ c = false) ∨ t.look a = some (x, c) := by
    intro a x c hk
    rw [hlook] at hk
    split at hk
    case isTrue ha =>
      cases hk
      exact Or.inl ⟨ha, rfl, rfl⟩
    case isFalse ha => exact Or.inr hk
  exact
    { received_of_look := by
        intro a x c hk
        obtain ⟨rfl, rfl, -⟩ | hk := hcases hk
        · exact hlast
        · exact mem_append_left _ (h.received_of_look hk)
      callee_iff := by
        intro a x
        rw [hback, hlook]
        by_cases hx : x = m.calleeCallId
        · rw [if_pos hx]
          constructor
          · intro ha
            cases ha
            exact ⟨false, by rw [if_pos rfl, hx]⟩
          · rintro ⟨c, hk⟩
            split at hk
            case isTrue ha => rw [ha]
            case isFalse ha => exact absurd hx (hapart hk).2
        · rw [if_neg hx, h.callee_iff]
          constructor
          · rintro ⟨c, hk⟩
            exact ⟨c, by rw [if_neg (hapart hk).1, hk]⟩
          · rintro ⟨c, hk⟩
            split at hk
            case isTrue ha =>
              cases hk
              exact absurd rfl hx
            case isFalse ha => exact ⟨c, hk⟩
      conflicted_iff := by
        intro a x c hk
        obtain ⟨rfl, rfl, rfl⟩ | hk := hcases hk
        · refine iff_of_false Bool.false_ne_true ?_
          rintro ⟨q, hq, hcontra⟩
          obtain hq | hq := mem_append.mp hq
          · exact hnew q hq hcontra
          · rw [mem_singleton.mp hq] at hcontra
            exact not_contradicts_self m hcontra
        · rw [h.conflicted_iff hk]
          refine ⟨exists_contradicts_append, ?_⟩
          rintro ⟨q, hq, hcontra⟩
          obtain hq | hq := mem_append.mp hq
          · exact ⟨q, hq, hcontra⟩
          · rw [mem_singleton.mp hq] at hcontra
            obtain ⟨hsame, -⟩ | ⟨hsame, -⟩ := hcontra
            · exact absurd hsame.symm (hapart hk).1
            · exact absurd hsame.symm (hapart hk).2
      held_or := by
        intro p hp
        obtain hp | hp := mem_append.mp hp
        · obtain ⟨c, hk⟩ | hcontra := h.held_or p hp
          · exact Or.inl ⟨c, by rw [hlook, if_neg (hapart hk).1, hk]⟩
          · exact Or.inr (exists_contradicts_append hcontra)
        · rw [mem_singleton.mp hp]
          exact Or.inl ⟨false, by rw [hlook, if_pos rfl]⟩ }

theorem Tracks.refused (h : Tracks t received)
    (hnotdup : t.look m.callerCallId ≠ some (m.calleeCallId, false))
    (hheld : ¬ (t.look m.callerCallId = none ∧ t.byCallee.get? m.calleeCallId = none))
    (hlook : ∀ k, t'.look k = (t.look k).map (fun p =>
      (p.1, p.2 || k == m.callerCallId || t.byCallee.get? m.calleeCallId == some k)))
    (hback : ∀ k, t'.byCallee.get? k = t.byCallee.get? k) : Tracks t' (received ++ [m]) := by
  have hlast : m ∈ received ++ [m] := mem_append_right _ (mem_singleton_self m)
  have hcases : ∀ {a x c}, t'.look a = some (x, c) →
      ∃ c', t.look a = some (x, c') ∧
        c = (c' || a == m.callerCallId || t.byCallee.get? m.calleeCallId == some a) := by
    intro a x c hk
    rw [hlook, map_eq_some_iff] at hk
    obtain ⟨⟨x', c'⟩, hk, heq⟩ := hk
    obtain ⟨rfl, hc⟩ := Prod.mk.inj heq
    exact ⟨c', hk, hc.symm⟩
  have hkept : ∀ {a x}, (∃ c, t'.look a = some (x, c)) ↔ ∃ c, t.look a = some (x, c) := by
    intro a x
    constructor
    · rintro ⟨c, hk⟩
      obtain ⟨c', hk, -⟩ := hcases hk
      exact ⟨c', hk⟩
    · rintro ⟨c, hk⟩
      exact ⟨_, by rw [hlook, hk]; rfl⟩
  exact
    { received_of_look := by
        intro a x c hk
        obtain ⟨c', hk, -⟩ := hcases hk
        exact mem_append_left _ (h.received_of_look hk)
      callee_iff := by
        intro a x
        rw [hback, h.callee_iff, hkept]
      conflicted_iff := by
        intro a x c hk
        obtain ⟨c', hbefore, rfl⟩ := hcases hk
        -- The event repeats the pair, and that is no news only for one in conflict.
        have hagain : a = m.callerCallId → x = m.calleeCallId →
            ∃ q ∈ received ++ [m], Contradicts q ⟨a, x⟩ := by
          rintro rfl rfl
          cases c' with
          | true => exact exists_contradicts_append ((h.conflicted_iff hbefore).mp rfl)
          | false => exact absurd hbefore hnotdup
        rw [Bool.or_eq_true, Bool.or_eq_true, beq_iff_eq, beq_iff_eq, h.conflicted_iff hbefore]
        constructor
        · rintro ((hcontra | rfl) | hother)
          · exact exists_contradicts_append hcontra
          · by_cases hx : m.calleeCallId = x
            · exact hagain rfl hx.symm
            · exact ⟨m, hlast, Or.inl ⟨rfl, hx⟩⟩
          · obtain ⟨c, hk'⟩ := h.callee_iff.mp hother
            have hx : x = m.calleeCallId := by
              rw [hbefore] at hk'
              exact congrArg Prod.fst (some.inj hk')
            by_cases ha : m.callerCallId = a
            · exact hagain ha.symm hx
            · exact ⟨m, hlast, Or.inr ⟨hx.symm, ha⟩⟩
        · rintro ⟨q, hq, hcontra⟩
          obtain hq | hq := mem_append.mp hq
          · exact Or.inl (Or.inl ⟨q, hq, hcontra⟩)
          · rw [mem_singleton.mp hq] at hcontra
            obtain ⟨hsame, -⟩ | ⟨hsame, -⟩ := hcontra
            · exact Or.inl (Or.inr hsame.symm)
            · exact Or.inr (h.callee_iff.mpr ⟨c', by rw [hsame]; exact hbefore⟩)
      held_or := by
        intro p hp
        obtain hp | hp := mem_append.mp hp
        · obtain hkeep | hcontra := h.held_or p hp
          · exact Or.inl (hkept.mpr hkeep)
          · exact Or.inr (exists_contradicts_append hcontra)
        · rw [mem_singleton.mp hp, hkept]
          -- The event's Call-IDs are held by itself after a contradiction, or by another pair.
          cases hcaller : t.look m.callerCallId with
          | some p' =>
            obtain ⟨x, c⟩ := p'
            by_cases hx : x = m.calleeCallId
            · exact Or.inl ⟨c, by rw [hx]⟩
            · exact Or.inr ⟨⟨m.callerCallId, x⟩,
                mem_append_left _ (h.received_of_look hcaller), Or.inl ⟨rfl, hx⟩⟩
          | none =>
            cases hcallee : t.byCallee.get? m.calleeCallId with
            | none => exact absurd ⟨hcaller, hcallee⟩ hheld
            | some a =>
              obtain ⟨c, hk⟩ := h.callee_iff.mp hcallee
              have ha : a ≠ m.callerCallId := by
                rintro rfl
                rw [hcaller] at hk
                cases hk
              exact Or.inr ⟨⟨a, m.calleeCallId⟩,
                mem_append_left _ (h.received_of_look hk), Or.inr ⟨rfl, ha⟩⟩ }

theorem Tracks.step {op : Op} (h : Tracks t received) (hwithin : op.Within t)
    (hfresh : Fresh t received op) : Tracks (op.step t) (received ++ op.events) := by
  cases op with
  | sweep now present =>
    obtain ⟨hlook, hcallee⟩ := sweep_keeps hwithin
    have hsame : received ++ (Op.sweep now present).events = received := append_nil _
    rw [hsame]
    exact h.congr hlook (fun k => congrArg (fun map => map.get? k) hcallee)
  | event m now =>
    obtain ⟨hdup, heq⟩ | ⟨hcaller, hcallee, hlook, hback⟩ | ⟨hnotdup, hheld, hlook, hback⟩ :=
      insert_cases t m now hwithin
    · have hsame : (Op.event m now).step t = t := heq
      rw [hsame]
      exact h.repeated hdup
    · exact h.added hcaller hcallee hlook hback (hfresh hcaller hcallee)
    · exact h.refused hnotdup hheld hlook hback

end

/-- A run of events and sweeps within the table's capacity and lifetime: in every state the pairs
that join are those received and not contradicted, exactly when no new pair is contradicted by an
event before it. -/
theorem joins_by_events_iff (max ttlSecs : ℕ) (ops : List Op)
    (hwithin : AtEach (fun t _ op => op.Within t) (new max ttlSecs) [] ops) :
    Throughout Faithful (new max ttlSecs) [] ops ↔ AtEach Fresh (new max ttlSecs) [] ops := by
  have htracks := tracks_new max ttlSecs
  generalize new max ttlSecs = t at hwithin htracks
  generalize ([] : List ThMapping) = received at hwithin htracks
  induction ops generalizing t received with
  | nil => exact iff_of_true htracks.faithful trivial
  | cons op ops ih =>
    obtain ⟨hroom, hwithin⟩ := hwithin
    constructor
    · rintro ⟨-, hthrough⟩
      have hfresh : Fresh t received op := by
        cases op with
        | sweep now present => trivial
        | event m now =>
          intro hcaller hcallee q hq hcontra
          obtain ⟨hdup, -⟩ | ⟨-, -, hlook, -⟩ | ⟨-, hheld, -, -⟩ := insert_cases t m now hroom
          · rw [hcaller] at hdup
            cases hdup
          · have hjoined : ((Op.event m now).step t).joined m.callerCallId m.calleeCallId := by
              rw [joined_iff_look]
              exact (hlook _).trans (if_pos rfl)
            have hfaithful : Faithful ((Op.event m now).step t)
                (received ++ (Op.event m now).events) := by
              cases ops with
              | nil => exact hthrough
              | cons op ops => exact hthrough.1
            exact ((hfaithful m).mp hjoined).2 q (mem_append_left _ hq) hcontra
          · exact hheld ⟨hcaller, hcallee⟩
      exact ⟨hfresh, (ih _ _ hwithin (htracks.step hroom hfresh)).mp hthrough⟩
    · rintro ⟨hfresh, hrest⟩
      exact ⟨htracks.faithful, (ih _ _ hwithin (htracks.step hroom hfresh)).mpr hrest⟩

def twoCalls : List Op :=
  [.event ⟨"a@x", "DLGCH_a"⟩ 0, .event ⟨"b@x", "DLGCH_b"⟩ 1, .event ⟨"b@x", "DLGCH_b"⟩ 2]

theorem joins_by_events_two_calls : Throughout Faithful (new 10 300) [] twoCalls := by
  have hwithin : AtEach (fun t _ op => op.Within t) (new 10 300) [] twoCalls :=
    ⟨show _ ≠ Insert.full by decide, show _ ≠ Insert.full by decide,
      show _ ≠ Insert.full by decide, trivial⟩
  refine (joins_by_events_iff 10 300 twoCalls hwithin).mpr ⟨?_, ?_, ?_, trivial⟩
  · intro _ _ q hq
    cases hq
  · intro _ _ q hq
    rw [mem_singleton.mp hq]
    rintro (⟨h, -⟩ | ⟨h, -⟩)
    · exact absurd h (by decide)
    · exact absurd h (by decide)
  · intro hcaller
    exact absurd hcaller (by decide)

/-- One caller with two callees, and then the second callee with another caller. -/
def thirdPair : List Op :=
  [.event ⟨"a@x", "DLGCH_a"⟩ 0, .event ⟨"a@x", "DLGCH_b"⟩ 1, .event ⟨"b@x", "DLGCH_b"⟩ 2]

/-- The second pair is refused and forgotten, so that the third joins, and does not when it comes
first. -/
theorem refused_pair_forgotten :
    AtEach (fun t _ op => op.Within t) (new 10 300) [] thirdPair ∧
      (thirdPair.foldl Op.step (new 10 300)).joined "b@x" "DLGCH_b" ∧
      Contradicts ⟨"a@x", "DLGCH_b"⟩ ⟨"b@x", "DLGCH_b"⟩ ∧
      ¬ Throughout Faithful (new 10 300) [] thirdPair ∧
      ¬ (thirdPair.reverse.foldl Op.step (new 10 300)).joined "b@x" "DLGCH_b" := by
  have hwithin : AtEach (fun t _ op => op.Within t) (new 10 300) [] thirdPair :=
    ⟨show _ ≠ Insert.full by decide, show _ ≠ Insert.full by decide,
      show _ ≠ Insert.full by decide, trivial⟩
  have hjoined : (thirdPair.foldl Op.step (new 10 300)).joined "b@x" "DLGCH_b" := by decide
  have hcontra : Contradicts ⟨"a@x", "DLGCH_b"⟩ ⟨"b@x", "DLGCH_b"⟩ := Or.inr ⟨rfl, by decide⟩
  refine ⟨hwithin, hjoined, hcontra, ?_, by decide⟩
  rintro ⟨-, -, -, hfaithful⟩
  exact ((hfaithful ⟨"b@x", "DLGCH_b"⟩).mp hjoined).2 ⟨"a@x", "DLGCH_b"⟩
    (mem_cons_of_mem _ (mem_cons_self ..)) hcontra

end ThMappingTable

end Sipnab
