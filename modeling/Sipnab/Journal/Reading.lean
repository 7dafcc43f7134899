import Sipnab.Journal.Segments

/-!
# Reading what was written

The segments of a journal whose lines form a chain are read as the records they were written from,
whatever is left of a line behind the last one.
-/

namespace Sipnab.Operations

open List Option OrderedMap

variable {js : Serde} {lineHash : Bytes → Text}

/-! ## One record -/

def Plain (fields : OrderedMap Text js.Value) : Prop := ∀ k ∈ envelope, fields.get? k = none

variable {fields : OrderedMap Text js.Value} {torn : Bytes}

theorem admitBody_eq_ok {body : js.Value} (hbody : admitBody body = .ok fields) : Plain fields := by
  unfold admitBody at hbody
  split at hbody
  case h_1 => cases hbody
  case h_2 fields' hfields =>
    split at hbody
    case h_1 => cases hbody
    case h_2 hnone =>
      cases hbody
      intro k hk
      simpa using List.find?_eq_none.mp hnone k hk

theorem admitBody_object (h : js.Lawful) (hplain : Plain fields) :
    admitBody (js.object fields) = .ok fields := by
  have hnone : envelope.find? (fun k => (fields.get? k).isSome) = none := by
    rw [List.find?_eq_none]
    intro k hk
    simp [hplain k hk]
  rw [admitBody, h.asObject_object]
  dsimp only
  rw [hnone]

theorem get?_recordObject (r : Record js) (hplain : Plain fields) (prev : Option Text) (k : Text) :
    (recordObject r fields prev).get? k =
      if k = "prev".toList then prev.map js.string
      else if k = "kind".toList then some (js.string r.kind)
      else if k = "run".toList then some (js.string r.run)
      else if k = "ts".toList then some (js.string r.ts)
      else if k = "seq".toList then some (js.number r.seq)
      else if k = "v".toList then some (js.number journalVersion)
      else fields.get? k := by
  have hrecord : recordObject r fields none = fields.entries.foldl (fun m e => m.insert e.1 e.2)
      (((((OrderedMap.empty.insert "v".toList (js.number journalVersion)).insert
        "seq".toList (js.number r.seq)).insert "ts".toList (js.string r.ts)).insert
        "run".toList (js.string r.run)).insert "kind".toList (js.string r.kind)) := rfl
  have hempty : (OrderedMap.empty : OrderedMap Text js.Value).get? k = none := rfl
  have hnone : (recordObject r fields none).get? k =
      if k = "prev".toList then none
      else if k = "kind".toList then some (js.string r.kind)
      else if k = "run".toList then some (js.string r.run)
      else if k = "ts".toList then some (js.string r.ts)
      else if k = "seq".toList then some (js.number r.seq)
      else if k = "v".toList then some (js.number journalVersion)
      else fields.get? k := by
    rw [hrecord, get?_foldl_insert]
    simp only [get?_insert, hempty]
    by_cases hk : k ∈ envelope
    · rw [hplain k hk, none_or]
      simp only [envelope, mem_cons, not_mem_nil, or_false] at hk
      obtain rfl | rfl | rfl | rfl | rfl | rfl := hk <;> rfl
    · simp only [envelope, mem_cons, not_mem_nil, or_false, not_or] at hk
      obtain ⟨hv, hseq, hts, hrun, hkind, hprev⟩ := hk
      simp only [hv, hseq, hts, hrun, hkind, hprev, if_false, or_none]
  cases prev with
  | none => exact hnone
  | some prev =>
    have hsome : recordObject r fields (some prev) =
        (recordObject r fields none).insert "prev".toList (js.string prev) := rfl
    rw [hsome, get?_insert, hnone]
    split_ifs <;> rfl

theorem erase_recordObject (r : Record js) (hplain : Plain fields) (prev : Option Text) :
    envelope.foldl OrderedMap.erase (recordObject r fields prev) = fields := by
  apply ext_get?
  intro k
  rw [get?_foldl_erase, get?_recordObject r hplain]
  by_cases hk : k ∈ envelope
  · rw [if_pos hk, hplain k hk]
  · rw [if_neg hk]
    simp only [envelope, mem_cons, not_mem_nil, or_false, not_or] at hk
    obtain ⟨hv, hseq, hts, hrun, hkind, hprev⟩ := hk
    simp only [hv, hseq, hts, hrun, hkind, hprev, if_false]

/-- A record may come first, or behind the line with a hash. -/
def Linked (r : Record js) (prev : Option Text) : Option ℕ → Option Text → Prop
  | some expected, some hash => r.seq = expected ∧ prev = some hash
  | _, _ => r.seq = 1 ∨ r.kind = checkpointKind

variable {prev prev' : Option Text} {seq seq' : ℕ}

theorem checkLink_recordObject (h : js.Lawful) {r : Record js} (hbody : r.body = js.object fields)
    (hplain : Plain fields) {expected : Option ℕ} {hash : Option Text}
    (hlink : Linked r prev expected hash) (segment : ℕ) :
    checkLink (js.object (recordObject r fields prev)) hash expected segment = .ok r := by
  have hget : ∀ k, Serde.index (js.object (recordObject r fields prev)) k =
      ((recordObject r fields prev).get? k).getD js.null := h.index_object _
  have hseq : js.asU64 (Serde.index (js.object (recordObject r fields prev)) "seq".toList) =
      some r.seq := by
    rw [hget, get?_recordObject r hplain]
    exact h.asU64_number r.seq
  have hversion : js.asU64 (Serde.index (js.object (recordObject r fields prev)) "v".toList) =
      some journalVersion := by
    rw [hget, get?_recordObject r hplain]
    exact h.asU64_number journalVersion
  have hkind : js.asStr (Serde.index (js.object (recordObject r fields prev)) "kind".toList) =
      some r.kind := by
    rw [hget, get?_recordObject r hplain]
    exact h.asStr_string r.kind
  have hts : js.asStr (Serde.index (js.object (recordObject r fields prev)) "ts".toList) =
      some r.ts := by
    rw [hget, get?_recordObject r hplain]
    exact h.asStr_string r.ts
  have hrun : js.asStr (Serde.index (js.object (recordObject r fields prev)) "run".toList) =
      some r.run := by
    rw [hget, get?_recordObject r hplain]
    exact h.asStr_string r.run
  have hrecord : (⟨r.seq, r.ts, r.run, r.kind, js.object fields⟩ : Record js) = r := by
    rw [← hbody]
  unfold checkLink
  rw [hseq]
  dsimp only
  rw [hversion, hkind, hts, hrun, h.asObject_object, getD_some, getD_some,
    getD_some, getD_some, erase_recordObject r hplain, hrecord,
    if_neg (fun hne => hne rfl)]
  split
  case h_1 expected hash =>
    obtain ⟨hnumber, rfl⟩ := hlink
    have hprev : js.asStr (Serde.index (js.object (recordObject r fields (some hash)))
        "prev".toList) = some hash := by
      rw [hget, get?_recordObject r hplain]
      exact h.asStr_string hash
    rw [hprev, if_neg (fun hne => hne hnumber), if_neg (fun hne => hne rfl)]
  case h_2 hfirst =>
    have hbegins : r.seq = 1 ∨ r.kind = checkpointKind := by
      cases expected with
      | none => exact hlink
      | some expected =>
        cases hash with
        | none => exact hlink
        | some hash => exact absurd rfl (hfirst expected hash rfl)
    rw [if_neg]
    rintro ⟨hnumber, hcheckpoint⟩
    exact hbegins.elim hnumber hcheckpoint

/-! ## Chains of lines -/

structure Line (js : Serde) where
  record : Record js
  bytes : Bytes

def Line.WrittenBehind (l : Line js) (prev : Option Text) : Prop :=
  ∃ fields, l.record.body = js.object fields ∧ Plain fields ∧
    l.bytes = js.toBytes (js.object (recordObject l.record fields prev))

/-- Lines written one behind the other, from a hash and a sequence number to those of the next
line. -/
inductive Chain (lineHash : Bytes → Text) : Option Text → ℕ → List (Line js) → Option Text → ℕ → Prop
  | nil (prev : Option Text) (seq : ℕ) : Chain lineHash prev seq [] prev seq
  | cons {prev prev' : Option Text} {seq seq' : ℕ} {l : Line js} {lines : List (Line js)}
      (hwritten : l.WrittenBehind prev) (hseq : l.record.seq = seq)
      (hrest : Chain lineHash (some (lineHash l.bytes)) (seq + 1) lines prev' seq') :
      Chain lineHash prev seq (l :: lines) prev' seq'

namespace Chain

variable {prev prev' prev'' : Option Text} {seq seq' seq'' : ℕ} {lines lines' : List (Line js)}

theorem append (h : Chain lineHash prev seq lines prev' seq')
    (h' : Chain lineHash prev' seq' lines' prev'' seq'') :
    Chain lineHash prev seq (lines ++ lines') prev'' seq'' := by
  induction h with
  | nil => exact h'
  | cons hwritten hseq _ ih => exact cons hwritten hseq (ih h')

theorem split (h : Chain lineHash prev seq (lines ++ lines') prev'' seq'') :
    ∃ prev' seq', Chain lineHash prev seq lines prev' seq' ∧
      Chain lineHash prev' seq' lines' prev'' seq'' := by
  induction lines generalizing prev seq with
  | nil => exact ⟨prev, seq, nil prev seq, h⟩
  | cons l lines ih =>
    cases h with
    | cons hwritten hseq hrest =>
      obtain ⟨middle, number, hfirst, hlast⟩ := ih hrest
      exact ⟨middle, number, cons hwritten hseq hfirst, hlast⟩

theorem seqs_eq (h : Chain lineHash prev seq lines prev' seq') :
    lines.map (fun l => l.record.seq) = List.range' seq lines.length := by
  induction h with
  | nil => rfl
  | cons _ hseq _ ih => rw [map_cons, ih, hseq, length_cons, List.range'_succ]

theorem add_length_eq (h : Chain lineHash prev seq lines prev' seq') :
    seq + lines.length = seq' := by
  induction h with
  | nil => rfl
  | cons _ _ _ ih =>
    rw [length_cons]
    omega

end Chain

/-! ## Segments -/

def joinLines (lines : List (Line js)) : Bytes := lines.flatMap (fun l => l.bytes ++ [newline])

@[simp] theorem joinLines_nil : joinLines ([] : List (Line js)) = [] := rfl

@[simp] theorem joinLines_append (lines lines' : List (Line js)) :
    joinLines (lines ++ lines') = joinLines lines ++ joinLines lines' := flatMap_append

theorem joinLines_cons (l : Line js) (lines : List (Line js)) (rest : Bytes) :
    joinLines (l :: lines) ++ rest = l.bytes ++ newline :: (joinLines lines ++ rest) := by
  simp [joinLines]

theorem Line.WrittenBehind.newline_notMem (h : js.Lawful) {l : Line js}
    (hl : l.WrittenBehind prev) : newline ∉ l.bytes := by
  obtain ⟨fields, -, -, hbytes⟩ := hl
  rw [hbytes]
  exact h.newline_notMem _

theorem takeWhile_newline {bytes : Bytes} (h : newline ∉ bytes) (rest : Bytes) :
    (bytes ++ newline :: rest).takeWhile (· ≠ newline) = bytes ∧
      (bytes ++ newline :: rest).dropWhile (· ≠ newline) = newline :: rest := by
  have hall : ∀ b ∈ bytes, decide (b ≠ newline) = true := by
    intro b hb
    rw [decide_eq_true_eq]
    rintro rfl
    exact h hb
  rw [takeWhile_append_of_pos hall, dropWhile_append_of_pos hall]
  simp

/-- What a reading knows about the line before is in step with a chain, or it knows nothing and the
chain may come first. -/
def Reading.Awaits (reading : Reading js) (prev : Option Text) (seq : ℕ) (lines : List (Line js)) :
    Prop :=
  (reading.nextSeq = some seq ∧ ∃ hash, reading.prev = some hash ∧ prev = some hash) ∨
    (reading.nextSeq = none ∧ reading.prev = none ∧
      ∀ l ∈ lines.head?, l.record.seq = 1 ∨ l.record.kind = checkpointKind)

def Reading.past (reading : Reading js) (lines : List (Line js)) (prev : Option Text) (seq : ℕ) :
    Reading js :=
  if lines.isEmpty then reading
  else { reading with
    records := reading.records ++ lines.map Line.record
    prev := prev
    nextSeq := some seq }

def Reading.atTorn (reading : Reading js) (torn : Bytes) : Reading js :=
  if torn.isEmpty then reading else { reading with tornBytes := torn.length }

variable {reading : Reading js} {lines : List (Line js)}

theorem Reading.past_awaits {prev'' : Option Text} {seq'' : ℕ} {lines' : List (Line js)}
    (hawaits : reading.Awaits prev seq (lines ++ lines'))
    (hchain : Chain lineHash prev seq lines prev' seq')
    (hchain' : Chain lineHash prev' seq' lines' prev'' seq'') :
    (reading.past lines prev' seq').Awaits prev' seq' lines' ∧
      (reading.past lines prev' seq').past lines' prev'' seq'' =
        reading.past (lines ++ lines') prev'' seq'' := by
  have hend : lines ≠ [] → ∃ hash, prev' = some hash := by
    clear hawaits hchain'
    induction hchain with
    | nil => exact fun hne => absurd rfl hne
    | @cons prev prev' seq seq' l lines _ _ hrest ih =>
      intro _
      cases lines with
      | nil =>
        cases hrest
        exact ⟨_, rfl⟩
      | cons _ _ => exact ih (cons_ne_nil _ _)
  cases lines with
  | nil =>
    cases hchain
    exact ⟨hawaits, rfl⟩
  | cons l lines =>
    obtain ⟨hash, rfl⟩ := hend (cons_ne_nil _ _)
    refine ⟨Or.inl ⟨rfl, hash, rfl, rfl⟩, ?_⟩
    cases lines' with
    | nil =>
      cases hchain'
      simp [Reading.past]
    | cons l' lines' => simp [Reading.past]

theorem readLines_joinLines (h : js.Lawful) {isLast : Bool} (htorn : newline ∉ torn)
    (hlast : torn = [] ∨ isLast = true) (segment : ℕ)
    (hchain : Chain lineHash prev seq lines prev' seq') (hawaits : reading.Awaits prev seq lines)
    {n : ℕ} (hn : (joinLines lines ++ torn).length ≤ n) :
    readLines lineHash isLast segment n reading (joinLines lines ++ torn) =
      .ok ((reading.past lines prev' seq').atTorn torn) := by
  induction hchain generalizing reading n with
  | nil prev seq =>
    rw [joinLines_nil, nil_append] at hn ⊢
    cases torn with
    | nil => cases n <;> rfl
    | cons b torn =>
      obtain ⟨n, rfl⟩ : ∃ k, n = k + 1 := ⟨n - 1, by rw [length_cons] at hn; omega⟩
      have hall : ∀ c ∈ b :: torn, decide (c ≠ newline) = true := by
        intro c hc
        rw [decide_eq_true_eq]
        rintro rfl
        exact htorn hc
      have hdrop : (b :: torn).dropWhile (· ≠ newline) = [] := dropWhile_eq_nil_iff.mpr hall
      rw [readLines, hdrop, hlast.resolve_left (cons_ne_nil _ _)]
      rfl
  | @cons prev prev' seq seq' l lines hwritten hseq hrest ih =>
    have hnewline := hwritten.newline_notMem h
    obtain ⟨fields, hbody, hplain, hbytes⟩ := hwritten
    rw [joinLines_cons] at hn ⊢
    obtain ⟨n, rfl⟩ : ∃ k, n = k + 1 := by
      refine ⟨n - 1, ?_⟩
      rw [length_append, length_cons] at hn
      omega
    obtain ⟨htake, hdrop⟩ := takeWhile_newline hnewline (joinLines lines ++ torn)
    have hread : js.fromBytes l.bytes = some (js.object (recordObject l.record fields prev)) := by
      rw [hbytes]
      exact h.fromBytes_toBytes _
    have hlink : Linked l.record prev reading.nextSeq reading.prev := by
      obtain ⟨hnext, hash, hprev, rfl⟩ | ⟨hnext, hprev, hfirst⟩ := hawaits
      · rw [hnext, hprev]
        exact ⟨hseq, rfl⟩
      · rw [hnext, hprev]
        exact hfirst l rfl
    have hne : (l.bytes ++ newline :: (joinLines lines ++ torn)).isEmpty = false := by simp
    rw [readLines, hne, if_neg Bool.false_ne_true, htake, hdrop]
    dsimp only
    rw [isEmpty_cons, if_neg Bool.false_ne_true, hread]
    dsimp only
    rw [checkLink_recordObject h hbody hplain hlink, tail_cons]
    dsimp only
    have hnext := @ih { reading with
        records := reading.records ++ [l.record]
        prev := some (lineHash l.bytes)
        nextSeq := some (l.record.seq + 1) }
      (Or.inl ⟨by rw [hseq], _, rfl, rfl⟩) n (by simp at hn ⊢; omega)
    rw [hnext]
    cases hrest with
    | nil => simp [Reading.past, hseq]
    | cons _ _ _ => simp [Reading.past]

/-- Segments of whole lines, the last with what is left of one behind them. -/
structure Layout (js : Serde) where
  closed : List (ℕ × List (Line js))
  no : ℕ
  lines : List (Line js)
  torn : Bytes

namespace Layout

def closedSegments (closed : List (ℕ × List (Line js))) : List (ℕ × Bytes) :=
  closed.map (fun s => (s.1, joinLines s.2))

def segments (d : Layout js) : List (ℕ × Bytes) :=
  closedSegments d.closed ++ [(d.no, joinLines d.lines ++ d.torn)]

def allLines (d : Layout js) : List (Line js) := d.closed.flatMap Prod.snd ++ d.lines

end Layout

/-- A chain that starts a journal: at the first record, or at a checkpoint. -/
def Begins (lineHash : Bytes → Text) (lines : List (Line js)) (prev' : Option Text) (seq' : ℕ) :
    Prop :=
  ∃ prev seq, Chain lineHash prev seq lines prev' seq' ∧
    (prev = none ∧ seq = 1 ∨ ∃ l ∈ lines.head?, l.record.kind = checkpointKind)

theorem Begins.awaits (hchain : Chain lineHash prev seq lines prev' seq')
    (hfirst : prev = none ∧ seq = 1 ∨ ∃ l ∈ lines.head?, l.record.kind = checkpointKind) :
    Reading.start.Awaits prev seq lines := by
  refine Or.inr ⟨rfl, rfl, ?_⟩
  intro l hl
  obtain ⟨-, hone⟩ | ⟨l', hl', hkind⟩ := hfirst
  · cases hchain with
    | nil => cases hl
    | cons _ hseq _ =>
      cases hl
      exact Or.inl (hseq.trans hone)
  · rw [mem_def] at hl hl'
    rw [hl'] at hl
    cases hl
    exact Or.inr hkind

theorem readSegmentsFrom_layout (h : js.Lawful) {no : ℕ} (htorn : newline ∉ torn)
    (closed : List (ℕ × List (Line js)))
    (hchain : Chain lineHash prev seq (closed.flatMap Prod.snd ++ lines) prev' seq')
    (hawaits : reading.Awaits prev seq (closed.flatMap Prod.snd ++ lines)) :
    readSegmentsFrom lineHash reading
        (Layout.closedSegments closed ++ [(no, joinLines lines ++ torn)]) =
      .ok ((reading.past (closed.flatMap Prod.snd ++ lines) prev' seq').atTorn torn) := by
  induction closed generalizing prev seq reading with
  | nil =>
    have hread := readLines_joinLines h htorn (Or.inr rfl) no hchain hawaits le_rfl
    rw [Layout.closedSegments, map_nil, nil_append, readSegmentsFrom, isEmpty_nil]
    rw [flatMap_nil, nil_append] at hread ⊢
    rw [hread]
    rfl
  | cons segment closed ih =>
    rw [flatMap_cons, append_assoc] at hchain hawaits ⊢
    obtain ⟨middle, number, hfirst, hrest⟩ := hchain.split
    obtain ⟨hnext, hpast⟩ := Reading.past_awaits hawaits hfirst hrest
    have hhere : reading.Awaits prev seq segment.2 := by
      obtain hstep | ⟨hseq, hprev, hhead⟩ := hawaits
      · exact Or.inl hstep
      · refine Or.inr ⟨hseq, hprev, fun l hl => hhead l ?_⟩
        rw [mem_def] at hl ⊢
        rw [List.head?_append, hl, some_or]
    have hnil : newline ∉ ([] : Bytes) := not_mem_nil
    have hread : readLines lineHash false segment.1 _ reading (joinLines segment.2 ++ []) = _ :=
      readLines_joinLines h hnil (Or.inl rfl) segment.1 hfirst hhere le_rfl
    rw [append_nil] at hread
    have hcons : Layout.closedSegments (segment :: closed) ++ [(no, joinLines lines ++ torn)] =
        (segment.1, joinLines segment.2) ::
          (Layout.closedSegments closed ++ [(no, joinLines lines ++ torn)]) := rfl
    have hmore : (Layout.closedSegments closed ++
        [(no, joinLines lines ++ torn)]).isEmpty = false := by simp
    rw [hcons, readSegmentsFrom, hmore, hread]
    dsimp only
    have hwhole : (reading.past segment.2 middle number).atTorn [] =
        reading.past segment.2 middle number := rfl
    rw [hwhole, ih hrest hnext, hpast]

theorem readSegments_layout (h : js.Lawful) {d : Layout js} (htorn : newline ∉ d.torn)
    (hbegins : Begins lineHash d.allLines prev' seq') :
    readSegments lineHash d.segments =
      .ok ((Reading.start.past d.allLines prev' seq').atTorn d.torn) := by
  obtain ⟨prev, seq, hchain, hfirst⟩ := hbegins
  exact readSegmentsFrom_layout h htorn d.closed hchain (Begins.awaits hchain hfirst)

end Sipnab.Operations
