import Sipnab.Journal.Reading

/-!
# Histories of a journal

A journal is opened, written, rolled over, pruned and closed, in any order, and each of these may
fail or be cut short. What a later opening reads back is compared with the appends that returned.
-/

namespace Sipnab.Operations

open List

variable {js : Serde} (lineHash : Bytes → Text)

/-- The directory and the session on it, with what happened so far. -/
structure State (js : Serde) where
  disk : Disk
  session : Option Journal
  /-- An append of this session failed with bytes of its line in the file. -/
  stale : Bool
  attempts : List (Attempt js)
  pruned : Bool

def State.start : State js := ⟨.empty, none, false, [], false⟩

inductive Op (js : Serde)
  | openJournal (run ts : Text) (fault : OpenFault) (ending : Ending)
  | append (kind ts : Text) (body : js.Value) (ending : Ending)
  | rollOver (state : js.Value) (ts : Text) (fault : RollFault) (ending : Ending)
  | prune (old : ℕ → Bool) (done : ℕ)
  | close

/-- A line that was begun stays in the file when its append fails. -/
def Ending.leaves (line : Bytes) : Ending → Bool
  | .ok => false
  | .crashed _ => false
  | ending => !(ending.reached line).isEmpty

def State.after (s : State js) (called : Called js) (left : Bool) : State js :=
  { s with
    disk := called.disk
    session := called.journal
    stale := called.journal.isSome && (s.stale || called.attempt.isSome && left)
    attempts := s.attempts ++ called.attempt.toList }

/-- The bytes of the next line that a failed append leaves behind. -/
def Journal.leaves (j : Journal) (kind ts : Text) (body : js.Value) (ending : Ending) : Bool :=
  match admitBody body with
  | .error _ => false
  | .ok fields => ending.leaves (j.nextLine kind ts fields)

def step (s : State js) : Op js → State js
  | .openJournal run ts fault ending =>
    match s.session with
    | some _ => s  -- locked
    | none => s.after (openWith lineHash s.disk run ts fault ending).called false
  | .append kind ts body ending =>
    match s.session with
    | some j => s.after (j.append lineHash s.disk kind ts body ending) (j.leaves kind ts body ending)
    | none => s
  | .rollOver state ts fault ending =>
    match s.session with
    | some j => s.after (j.rollOver lineHash s.disk state ts fault ending)
        (j.leaves checkpointKind ts (checkpointBody state) ending)
    | none => s
  | .prune old done => { s with disk := prune s.disk old done, pruned := true }
  | .close => { s with session := none, stale := false }

def runOps (ops : List (Op js)) : State js := ops.foldl (step lineHash) .start

/-! ## What is recovered -/

/-- The records of the appends that returned `Ok`, in order, and of some that never returned. -/
inductive Kept : List (Attempt js) → List (Record js) → Prop
  | nil : Kept [] []
  | keep {a : Attempt js} {attempts : List (Attempt js)} {records : List (Record js)}
      (ha : a.returned ≠ .error) (h : Kept attempts records) :
      Kept (a :: attempts) (a.record :: records)
  | skip {a : Attempt js} {attempts : List (Attempt js)} {records : List (Record js)}
      (ha : a.returned ≠ .ok) (h : Kept attempts records) : Kept (a :: attempts) records

/-- What the records of a journal are: those that were written, numbered one after the other, from
the first on or, once the journal was pruned, from a checkpoint on. -/
def Faithful (attempts : List (Attempt js)) (pruned : Bool) (records : List (Record js)) : Prop :=
  (∃ dropped kept, attempts = dropped ++ kept ∧ Kept kept records ∧
    (dropped = [] ∨ pruned = true ∧ ∃ r ∈ records.head?, r.kind = checkpointKind)) ∧
  ∃ first, records.map Record.seq = List.range' first records.length

def Recovers (s : State js) : Prop :=
  ∀ run ts, ∃ records, (openWith lineHash s.disk run ts .none .ok : Opened js).result = .ok records ∧
    Faithful s.attempts s.pruned records

def opensWithCheckpoint (js : Serde) (segments : List (ℕ × Bytes)) : Bool :=
  let bytes := segments.flatMap Prod.snd
  !(bytes.dropWhile (· ≠ newline)).isEmpty &&
    (js.fromBytes (bytes.takeWhile (· ≠ newline))).any (fun v =>
      js.asStr (Serde.index v "kind".toList) = some checkpointKind)

/-- Nothing fails behind a whole line, a session writes nothing more once a failed append left a
part of its line, segments keep to six digits, and pruning leaves a checkpoint first. -/
def Meets (s : State js) : Op js → Prop
  | .openJournal _ _ _ ending => ending ≠ .unsynced
  | .append _ _ _ ending => s.stale = false ∧ ending ≠ .unsynced
  | .rollOver _ _ _ ending => s.stale = false ∧ ending ≠ .unsynced ∧
      ∀ j ∈ s.session, j.segmentNo + 1 < segmentNumbers
  | .prune old done => (∀ e ∈ doomed s.disk old done, e.2 = []) ∨
      opensWithCheckpoint js (listSegments (prune s.disk old done)) = true
  | .close => True

/-! ## Appends and records -/

variable {lineHash}

namespace Kept

variable {attempts attempts' : List (Attempt js)} {records records' : List (Record js)}

theorem append (h : Kept attempts records) (h' : Kept attempts' records') :
    Kept (attempts ++ attempts') (records ++ records') := by
  induction h with
  | nil => exact h'
  | keep ha _ ih => exact keep ha ih
  | skip ha _ ih => exact skip ha ih

theorem split (h : Kept attempts (records ++ records')) :
    ∃ first last, attempts = first ++ last ∧ Kept first records ∧ Kept last records' := by
  induction attempts generalizing records with
  | nil =>
    have hnil : records = [] ∧ records' = [] := by
      generalize hall : records ++ records' = all at h
      cases h
      exact append_eq_nil_iff.mp hall
    obtain ⟨rfl, rfl⟩ := hnil
    exact ⟨[], [], rfl, nil, nil⟩
  | cons a attempts ih =>
    cases records with
    | nil => exact ⟨[], a :: attempts, rfl, nil, h⟩
    | cons r records =>
      generalize hall : r :: records ++ records' = all at h
      cases h with
      | keep ha h =>
        obtain ⟨rfl, rfl⟩ := List.cons.inj hall
        obtain ⟨first, last, rfl, hfirst, hlast⟩ := ih h
        exact ⟨a :: first, last, rfl, keep ha hfirst, hlast⟩
      | skip ha h =>
        subst hall
        obtain ⟨first, last, rfl, hfirst, hlast⟩ := ih h
        exact ⟨a :: first, last, rfl, skip ha hfirst, hlast⟩

end Kept

/-- The lines are those of the appends, but for some that pruning dropped. -/
def Accounted (attempts : List (Attempt js)) (pruned : Bool) (lines : List (Line js)) : Prop :=
  ∃ dropped kept, attempts = dropped ++ kept ∧ Kept kept (lines.map Line.record) ∧
    (dropped = [] ∨ pruned = true ∧ ∃ l ∈ lines.head?, l.record.kind = checkpointKind)

theorem Accounted.append {attempts more : List (Attempt js)} {pruned : Bool}
    {lines lines' : List (Line js)} (h : Accounted attempts pruned lines)
    (hmore : Kept more (lines'.map Line.record)) :
    Accounted (attempts ++ more) pruned (lines ++ lines') := by
  obtain ⟨dropped, kept, rfl, hkept, hfirst⟩ := h
  refine ⟨dropped, kept ++ more, append_assoc _ _ _, ?_, ?_⟩
  · rw [map_append]
    exact hkept.append hmore
  · refine hfirst.imp_right (fun ⟨hpruned, l, hl, hkind⟩ => ⟨hpruned, l, ?_, hkind⟩)
    rw [Option.mem_def] at hl ⊢
    rw [List.head?_append, hl, Option.some_or]

theorem Accounted.drop {attempts : List (Attempt js)} {pruned : Bool} {lines lines' : List (Line js)}
    (h : Accounted attempts pruned (lines ++ lines'))
    (hhead : ∃ l ∈ lines'.head?, l.record.kind = checkpointKind) :
    Accounted attempts true lines' := by
  obtain ⟨dropped, kept, rfl, hkept, -⟩ := h
  rw [map_append] at hkept
  obtain ⟨first, last, rfl, -, hlast⟩ := hkept.split
  exact ⟨dropped ++ first, last, (append_assoc _ _ _).symm, hlast, Or.inr ⟨rfl, hhead⟩⟩

theorem Accounted.pruned {attempts : List (Attempt js)} {pruned : Bool} {lines : List (Line js)}
    (h : Accounted attempts pruned lines) : Accounted attempts true lines := by
  obtain ⟨dropped, kept, heq, hkept, hfirst⟩ := h
  exact ⟨dropped, kept, heq, hkept, hfirst.imp_right (fun hhead => ⟨rfl, hhead.2⟩)⟩

/-! ## The directory -/

/-- The directory holds a chain of lines, laid out in segments. -/
structure Stored (lineHash : Bytes → Text) (disk : Disk) (d : Layout js) (prev' : Option Text)
    (seq' : ℕ) : Prop where
  disk : disk.entries = d.segments
  torn : newline ∉ d.torn
  closedNumbers : ∀ e ∈ d.closed, e.1 < segmentNumbers
  number : d.no < segmentNumbers
  begins : Begins lineHash d.allLines prev' seq'

namespace Stored

variable {disk : Disk} {d : Layout js} {prev' : Option Text} {seq' : ℕ}

theorem listSegments_eq (h : Stored lineHash disk d prev' seq') : listSegments disk = d.segments := by
  rw [listSegments, h.disk, filter_eq_self]
  intro e he
  rw [decide_eq_true_eq]
  obtain he | he := mem_append.mp he
  · obtain ⟨s, hs, rfl⟩ := List.mem_map.mp he
    exact h.closedNumbers s hs
  · cases mem_singleton.mp he
    exact h.number

theorem get?_no (h : Stored lineHash disk d prev' seq') :
    disk.get? d.no = some (joinLines d.lines ++ d.torn) := by
  rw [OrderedMap.get?_eq_some_iff, h.disk, Layout.segments]
  simp

theorem entries_insert (h : Stored lineHash disk d prev' seq') (bytes : Bytes) :
    (disk.insert d.no bytes).entries = Layout.closedSegments d.closed ++ [(d.no, bytes)] :=
  OrderedMap.entries_insert_last h.disk bytes

theorem entries_write (h : Stored lineHash disk d prev' seq') (bytes : Bytes) :
    (Disk.write disk d.no bytes).entries =
      Layout.closedSegments d.closed ++ [(d.no, joinLines d.lines ++ d.torn ++ bytes)] := by
  rw [Disk.write, Disk.bytes, h.get?_no, Option.getD_some, h.entries_insert]

theorem push (h : Stored lineHash disk d prev' seq') (htorn : d.torn = []) {l : Line js}
    (hl : l.WrittenBehind prev') (hseq : l.record.seq = seq') :
    Stored lineHash (Disk.write disk d.no (l.bytes ++ [newline]))
      { d with lines := d.lines ++ [l] } (some (lineHash l.bytes)) (seq' + 1) where
  disk := by
    rw [h.entries_write, htorn, Layout.segments, joinLines_append]
    simp [joinLines]
  torn := h.torn
  closedNumbers := h.closedNumbers
  number := h.number
  begins := by
    obtain ⟨prev, seq, hchain, hfirst⟩ := h.begins
    have hall : Layout.allLines { d with lines := d.lines ++ [l] } = d.allLines ++ [l] := by
      simp [Layout.allLines]
    rw [hall]
    refine ⟨prev, seq, hchain.append (.cons hl hseq (.nil _ _)), hfirst.imp_right ?_⟩
    rintro ⟨first, hfirst, hkind⟩
    rw [Option.mem_def] at hfirst
    exact ⟨first, by rw [Option.mem_def, List.head?_append, hfirst, Option.some_or], hkind⟩

theorem withTorn (h : Stored lineHash disk d prev' seq') {disk' : Disk} {torn : Bytes}
    (hdisk : disk'.entries =
      Layout.closedSegments d.closed ++ [(d.no, joinLines d.lines ++ torn)])
    (htorn : newline ∉ torn) : Stored lineHash disk' { d with torn := torn } prev' seq' where
  disk := hdisk
  torn := htorn
  closedNumbers := h.closedNumbers
  number := h.number
  begins := h.begins

end Stored

def InStep (j : Journal) (d : Layout js) (prev' : Option Text) (seq' : ℕ) : Prop :=
  d.torn = [] ∧ j.seq + 1 = seq' ∧ j.prev = prev'

theorem Journal.nextLine_writtenBehind (j : Journal) {fields : OrderedMap Text js.Value}
    (hplain : Plain fields) (kind ts : Text) :
    Line.WrittenBehind ⟨j.nextRecord kind ts fields, j.nextLine kind ts fields⟩ j.prev :=
  ⟨fields, rfl, hplain, rfl⟩

section Append

variable {disk : Disk} {d : Layout js} {prev' : Option Text} {seq' : ℕ} {j : Journal}
  {attempts : List (Attempt js)} {pruned : Bool}

/-- What an append leaves: the session's file is the last segment, each line is accounted for, and
the session is in step unless it left a part of a line. -/
def Appended (lineHash : Bytes → Text) (j : Journal) (no : ℕ) (attempts : List (Attempt js))
    (pruned : Bool) (called : Called js) (left : Bool) : Prop :=
  ∃ d prev' seq', Stored lineHash called.disk d prev' seq' ∧ d.no = no ∧
    Accounted (attempts ++ called.attempt.toList) pruned d.allLines ∧
    ∀ j' ∈ called.journal, j'.file = j.file ∧ j'.segmentNo = j.segmentNo ∧
      ((called.attempt.isSome && left) = false → InStep j' d prev' seq')

theorem append_appended (h : js.Lawful) (hstored : Stored lineHash disk d prev' seq')
    (hfile : j.file = d.no) (hstep : InStep j d prev' seq')
    (haccounted : Accounted attempts pruned d.allLines) (kind ts : Text) (body : js.Value)
    {ending : Ending} (hending : ending ≠ .unsynced) :
    Appended lineHash j d.no attempts pruned (j.append lineHash disk kind ts body ending)
      (j.leaves kind ts body ending) := by
  unfold Journal.append Journal.leaves
  cases hbody : admitBody body with
  | error e =>
    refine ⟨d, prev', seq', hstored, rfl, ?_, ?_⟩
    · simpa using haccounted
    · rintro j' ⟨⟩
      exact ⟨rfl, rfl, fun _ => hstep⟩
  | ok fields =>
    obtain ⟨htorn, hseq, hprev⟩ := hstep
    have hplain := admitBody_eq_ok hbody
    have hwritten := j.nextLine_writtenBehind hplain kind ts
    rw [hprev] at hwritten
    have hpush := hstored.push htorn hwritten hseq
    have hnewline : newline ∉ j.nextLine kind ts fields := h.newline_notMem _
    -- the lines are what they were, with a part of one behind them
    have hpart : ∀ n, Stored lineHash
        (Disk.write disk d.no ((j.nextLine kind ts fields).take n))
        { d with torn := (j.nextLine kind ts fields).take n } prev' seq' := by
      intro n
      refine hstored.withTorn ?_ (fun hmem => hnewline (mem_of_mem_take hmem))
      rw [hstored.entries_write, htorn, append_nil]
    have hskipped : ∀ returned, returned ≠ Returned.ok →
        Accounted (attempts ++ [⟨j.nextRecord kind ts fields, returned⟩]) pruned d.allLines := by
      intro returned hne
      have hskip : Kept [(⟨j.nextRecord kind ts fields, returned⟩ : Attempt js)]
          (([] : List (Line js)).map Line.record) := .skip hne .nil
      have hsame := haccounted.append hskip
      rwa [append_nil] at hsame
    have hkept : ∀ returned, returned ≠ Returned.error →
        Accounted (attempts ++ [⟨j.nextRecord kind ts fields, returned⟩]) pruned
          (Layout.allLines { d with lines := d.lines ++
            [⟨j.nextRecord kind ts fields, j.nextLine kind ts fields⟩] }) := by
      intro returned hne
      have hkeep : Kept [(⟨j.nextRecord kind ts fields, returned⟩ : Attempt js)]
          ([(⟨j.nextRecord kind ts fields, j.nextLine kind ts fields⟩ : Line js)].map
            Line.record) := .keep hne .nil
      have hmore := haccounted.append hkeep
      simpa [Layout.allLines] using hmore
    rw [hfile]
    cases ending with
    | ok =>
      refine ⟨_, _, _, hpush, rfl, hkept .ok (by decide), ?_⟩
      rintro j' ⟨⟩
      exact ⟨hfile.symm, rfl, fun _ => ⟨htorn, by rw [← hseq], rfl⟩⟩
    | failed n =>
      refine ⟨_, _, _, hpart n, rfl, hskipped .error (by decide), ?_⟩
      rintro j' ⟨⟩
      refine ⟨rfl, rfl, fun hleft => ⟨?_, hseq, hprev⟩⟩
      simpa [Ending.leaves, Ending.reached] using hleft
    | unsynced => exact absurd rfl hending
    | crashed n =>
      have hnone : ∀ d' : Layout js, ∀ prev' seq',
          ∀ j' ∈ (none : Option Journal), j'.file = j.file ∧ j'.segmentNo = j.segmentNo ∧
            ((true && Ending.leaves (j.nextLine kind ts fields) (.crashed n)) = false →
              InStep j' d' prev' seq') := by
        rintro d' prev' seq' j' ⟨⟩
      dsimp only
      by_cases hn : n ≤ (j.nextLine kind ts fields).length
      · have hreached : Ending.reached (j.nextLine kind ts fields) (.crashed n) =
            (j.nextLine kind ts fields).take n := take_append_of_le_length hn
        rw [hreached]
        exact ⟨_, _, _, hpart n, rfl, hskipped .never (by decide), hnone _ _ _⟩
      · have hreached : Ending.reached (j.nextLine kind ts fields) (.crashed n) =
            j.nextLine kind ts fields ++ [newline] :=
          take_of_length_le (by rw [length_append, length_singleton]; omega)
        rw [hreached]
        exact ⟨_, _, _, hpush, rfl, hkept .never (by decide), hnone _ _ _⟩

theorem leaves_of_returned {kind ts : Text} {body : js.Value} {ending : Ending}
    (h : (j.append lineHash disk kind ts body ending : Called js).returned = .ok) :
    j.leaves kind ts body ending = false := by
  unfold Journal.append at h
  unfold Journal.leaves
  cases hbody : admitBody body with
  | error e => rfl
  | ok fields =>
    rw [hbody] at h
    cases ending with
    | ok => rfl
    | failed n => cases h
    | unsynced => cases h
    | crashed n => rfl

theorem append_returned {kind ts : Text} {body : js.Value} {fields : OrderedMap Text js.Value}
    (hbody : admitBody body = .ok fields) :
    (j.append lineHash disk kind ts body .ok : Called js).returned = .ok := by
  unfold Journal.append
  rw [hbody]
  rfl

end Append

/-! ## Opening -/

section Open

variable {disk : Disk} {d : Layout js} {prev' : Option Text} {seq' : ℕ}

theorem reading_layout (hbegins : Begins lineHash d.allLines prev' seq') :
    let reading := (Reading.start.past d.allLines prev' seq').atTorn d.torn
    reading.records = d.allLines.map Line.record ∧ reading.tornBytes = d.torn.length ∧
      reading.prev = prev' ∧ reading.nextSeq.elim 0 (fun n => n - 1) + 1 = seq' := by
  obtain ⟨prev, seq, hchain, hfirst⟩ := hbegins
  have htorn : ∀ reading : Reading js, reading.tornBytes = 0 →
      (reading.atTorn d.torn).tornBytes = d.torn.length ∧
        (reading.atTorn d.torn).records = reading.records ∧
        (reading.atTorn d.torn).prev = reading.prev ∧
        (reading.atTorn d.torn).nextSeq = reading.nextSeq := by
    intro reading hzero
    cases hcases : d.torn with
    | nil => exact ⟨hzero, rfl, rfl, rfl⟩
    | cons b torn => exact ⟨rfl, rfl, rfl, rfl⟩
  dsimp only
  cases hlines : d.allLines with
  | nil =>
    rw [hlines] at hchain hfirst
    cases hchain
    obtain ⟨rfl, rfl⟩ | ⟨l, hl, -⟩ := hfirst
    · obtain ⟨hbytes, hrecords, hprev, hnext⟩ := htorn Reading.start rfl
      exact ⟨hrecords, hbytes, hprev, congrArg (fun o : Option ℕ => o.elim 0 (fun n => n - 1) + 1) hnext⟩
    · cases hl
  | cons l lines =>
    rw [hlines] at hchain
    obtain ⟨hbytes, hrecords, hprev, hnext⟩ := htorn (Reading.start.past (l :: lines) prev' seq') rfl
    refine ⟨hrecords, hbytes, hprev, ?_⟩
    rw [hnext]
    have hlength := hchain.add_length_eq
    rw [length_cons] at hlength
    change seq' - 1 + 1 = seq'
    omega

theorem repair_stored (hstored : Stored lineHash disk d prev' seq') :
    Stored lineHash (repair disk d.segments d.torn.length) { d with torn := [] } prev' seq' := by
  have hlast : d.segments.getLast? = some (d.no, joinLines d.lines ++ d.torn) := by
    rw [Layout.segments, List.getLast?_concat]
  refine hstored.withTorn ?_ not_mem_nil
  rw [repair, hlast]
  dsimp only
  split_ifs with htorn
  · have hcut : (joinLines d.lines ++ d.torn).take
        ((joinLines d.lines ++ d.torn).length - d.torn.length) = joinLines d.lines := by
      rw [length_append, Nat.add_sub_cancel, take_left]
    rw [hcut, hstored.entries_insert, append_nil]
  · have hnil : d.torn = [] := eq_nil_of_length_eq_zero (by omega)
    rw [hstored.disk, Layout.segments, hnil]

theorem plain_tornBody (n : ℕ) :
    Plain (OrderedMap.empty.insert "bytes".toList (js.number n) : OrderedMap Text js.Value) := by
  intro k hk
  rw [OrderedMap.get?_insert, if_neg]
  · rfl
  · rintro rfl
    revert hk
    decide

/-- What opening leaves is a journal in step with its session. -/
def Opened.Sound (lineHash : Bytes → Text) (attempts : List (Attempt js)) (pruned : Bool)
    (o : Opened js) : Prop :=
  ∃ d prev' seq', Stored lineHash o.called.disk d prev' seq' ∧
    Accounted (attempts ++ o.called.attempt.toList) pruned d.allLines ∧
    ∀ j ∈ o.called.journal, j.file = d.no ∧ j.segmentNo = d.no ∧ InStep j d prev' seq'

variable {attempts : List (Attempt js)} {pruned : Bool}

theorem refused_sound (hstored : Stored lineHash disk d prev' seq')
    (haccounted : Accounted attempts pruned d.allLines) (e : JournalError js) :
    (Opened.refused disk e).Sound lineHash attempts pruned := by
  refine ⟨d, prev', seq', hstored, ?_, ?_⟩
  · simpa [Opened.refused] using haccounted
  · rintro j ⟨⟩

theorem openWith_eq (h : js.Lawful) (hstored : Stored lineHash disk d prev' seq') (run ts : Text)
    (fault : OpenFault) (ending : Ending) :
    openWith lineHash disk run ts fault ending = openRead lineHash disk d.segments
      ((Reading.start.past d.allLines prev' seq').atTorn d.torn) run ts fault ending := by
  rw [openWith, hstored.listSegments_eq, readSegments_layout h hstored.torn hstored.begins]

theorem openWith_sound (h : js.Lawful) (hstored : Stored lineHash disk d prev' seq')
    (haccounted : Accounted attempts pruned d.allLines) (run ts : Text) (fault : OpenFault)
    {ending : Ending} (hending : ending ≠ .unsynced) :
    (openWith lineHash disk run ts fault ending).Sound lineHash attempts pruned := by
  obtain ⟨-, hbytes, hprev, hnext⟩ := reading_layout hstored.begins
  have hrepaired := repair_stored hstored
  have hlast : d.segments.getLast? = some (d.no, joinLines d.lines ++ d.torn) := by
    rw [Layout.segments, List.getLast?_concat]
  have hnonempty : d.segments.isEmpty = false := by simp [Layout.segments]
  rw [openWith_eq h hstored]
  generalize (Reading.start.past d.allLines prev' seq').atTorn d.torn = reading at *
  unfold openRead
  rw [hbytes, hlast, hnonempty]
  simp only [Bool.false_eq_true, if_false, Option.map_some, Option.getD_some]
  generalize (Disk.bytes (repair disk d.segments d.torn.length) d.no).length = len
  have happended := append_appended
    (j := ⟨d.no, d.no, len, reading.nextSeq.elim 0 (fun n => n - 1), reading.prev, run⟩) h hrepaired
    rfl ⟨rfl, hnext, hprev⟩ haccounted tornTailKind ts (tornBody d.torn.length) hending
  split_ifs with hbefore hafter hcreate htorn hok
  · exact refused_sound hstored haccounted _
  · exact refused_sound hrepaired haccounted _
  · exact refused_sound hrepaired haccounted _
  · obtain ⟨d', prev'', seq'', hstored', hno, haccounted', hsession⟩ := happended
    refine ⟨d', prev'', seq'', hstored', haccounted', fun j hj => ?_⟩
    obtain ⟨hfile, hsegment, hstep⟩ := hsession j hj
    refine ⟨hfile.trans hno.symm, hsegment.trans hno.symm, hstep ?_⟩
    rw [leaves_of_returned hok, Bool.and_false]
  · obtain ⟨d', prev'', seq'', hstored', -, haccounted', -⟩ := happended
    refine ⟨d', prev'', seq'', hstored', haccounted', ?_⟩
    rintro j ⟨⟩
  · refine ⟨_, prev', seq', hrepaired, ?_, ?_⟩
    · rw [Option.toList_none, append_nil]
      exact haccounted
    · rintro j ⟨⟩
      exact ⟨rfl, rfl, rfl, hnext, hprev⟩

theorem openWith_result (h : js.Lawful) (hstored : Stored lineHash disk d prev' seq')
    (run ts : Text) :
    (openWith lineHash disk run ts .none .ok).result = .ok (d.allLines.map Line.record) := by
  obtain ⟨hrecords, -⟩ := reading_layout hstored.begins
  have hnonempty : d.segments.isEmpty = false := by simp [Layout.segments]
  rw [openWith_eq h hstored]
  generalize (Reading.start.past d.allLines prev' seq').atTorn d.torn = reading at *
  have hbody : admitBody (tornBody reading.tornBytes) = .ok _ :=
    admitBody_object h (plain_tornBody reading.tornBytes)
  unfold openRead
  rw [hnonempty]
  dsimp only
  rw [if_neg (by decide), if_neg (by decide), if_neg (by decide), append_returned hbody, if_pos rfl,
    hrecords]
  by_cases htorn : 0 < reading.tornBytes
  · rw [if_pos htorn]
  · rw [if_neg htorn]

end Open

/-! ## Every history -/

/-- The directory is empty, or holds a chain of lines that the appends account for and that an open
session is in step with. -/
def Sound (lineHash : Bytes → Text) (s : State js) : Prop :=
  (s.disk = .empty ∧ s.session = none ∧ s.attempts = []) ∨
    ∃ d prev' seq', Stored lineHash s.disk d prev' seq' ∧ Accounted s.attempts s.pruned d.allLines ∧
      ∀ j ∈ s.session, j.file = d.no ∧ (j.segmentNo = d.no ∨ j.segmentNo + 1 = d.no) ∧
        (s.stale = false → InStep j d prev' seq')

section Steps

variable {s : State js}

theorem Appended.sound {j : Journal} {no : ℕ} {called : Called js} {left : Bool}
    (h : Appended lineHash j no s.attempts s.pruned called left) (hfile : j.file = no)
    (hno : j.segmentNo = no ∨ j.segmentNo + 1 = no) :
    Sound lineHash (s.after called left) := by
  obtain ⟨d, prev', seq', hstored, hd, haccounted, hsession⟩ := h
  refine Or.inr ⟨d, prev', seq', hstored, haccounted, fun j' hj' => ?_⟩
  obtain ⟨hfile', hsegment, hstep⟩ := hsession j' hj'
  refine ⟨?_, ?_, fun hstale => hstep ?_⟩
  · rw [hfile', hfile, hd]
  · rw [hsegment, hd]
    exact hno
  · have hsome : called.journal.isSome = true := Option.isSome_of_mem hj'
    have hfalse : (called.journal.isSome && (s.stale || called.attempt.isSome && left)) = false :=
      hstale
    rw [hsome, Bool.true_and, Bool.or_eq_false_iff] at hfalse
    exact hfalse.2

theorem Opened.Sound.sound {o : Opened js} (h : o.Sound lineHash s.attempts s.pruned) :
    Operations.Sound lineHash (s.after o.called false) := by
  obtain ⟨d, prev', seq', hstored, haccounted, hsession⟩ := h
  refine Or.inr ⟨d, prev', seq', hstored, haccounted, fun j hj => ?_⟩
  obtain ⟨hfile, hsegment, hstep⟩ := hsession j hj
  exact ⟨hfile, Or.inl hsegment, fun _ => hstep⟩

theorem stored_create : Stored lineHash (OrderedMap.insert .empty 1 [])
    (⟨[], 1, [], []⟩ : Layout js) none 1 where
  disk := rfl
  torn := not_mem_nil
  closedNumbers := fun _ he => by cases he
  number := show 1 < segmentNumbers by decide
  begins := ⟨none, 1, .nil _ _, Or.inl ⟨rfl, rfl⟩⟩

theorem accounted_nil (pruned : Bool) : Accounted [] pruned ([] : List (Line js)) :=
  ⟨[], [], rfl, .nil, Or.inl rfl⟩

theorem openJournal_sound (h : js.Lawful) (hs : Sound lineHash s) (run ts : Text)
    (fault : OpenFault) {ending : Ending} (hending : ending ≠ .unsynced) :
    Sound lineHash (s.after (openWith lineHash s.disk run ts fault ending).called false) := by
  obtain ⟨hdisk, -, hattempts⟩ | ⟨d, prev', seq', hstored, haccounted, -⟩ := hs
  · have hread : (openWith lineHash s.disk run ts fault ending : Opened js) =
        openRead lineHash .empty [] .start run ts fault ending := by rw [hdisk]; rfl
    have hcreated : (openRead lineHash .empty [] .start run ts fault ending : Opened js) =
        (if fault = .beforeRepair ∨ fault = .afterRepair then Opened.refused .empty .io
        else if fault = .afterCreate then Opened.refused (OrderedMap.insert .empty 1 []) .io
        else ⟨⟨OrderedMap.insert .empty 1 [], some ⟨1, 1, 0, 0, none, run⟩, none, .ok⟩, .ok []⟩) := by
      cases fault <;> rfl
    have hempty : Accounted (s.attempts ++ (none : Option (Attempt js)).toList) s.pruned [] := by
      rw [hattempts]
      exact accounted_nil s.pruned
    rw [hread, hcreated]
    split_ifs
    · refine Or.inl ⟨rfl, rfl, ?_⟩
      simp [State.after, Opened.refused, hattempts]
    · refine Or.inr ⟨_, _, _, stored_create, hempty, ?_⟩
      rintro j ⟨⟩
    · refine Or.inr ⟨_, _, _, stored_create, hempty, ?_⟩
      rintro j ⟨⟩
      exact ⟨rfl, Or.inl rfl, fun _ => ⟨rfl, rfl, rfl⟩⟩
  · exact (openWith_sound h hstored haccounted run ts fault hending).sound

theorem append_sound (h : js.Lawful) (hs : Sound lineHash s) {j : Journal}
    (hj : s.session = some j) (hstale : s.stale = false) (kind ts : Text) (body : js.Value)
    {ending : Ending} (hending : ending ≠ .unsynced) :
    Sound lineHash (s.after (j.append lineHash s.disk kind ts body ending)
      (j.leaves kind ts body ending)) := by
  obtain ⟨-, hnone, -⟩ | ⟨d, prev', seq', hstored, haccounted, hsession⟩ := hs
  · rw [hj] at hnone
    cases hnone
  · obtain ⟨hfile, hno, hstep⟩ := hsession j hj
    exact (append_appended h hstored hfile (hstep hstale) haccounted kind ts body hending).sound
      hfile hno

theorem Stored.create {disk : Disk} {d : Layout js} {prev' : Option Text} {seq' : ℕ}
    (hstored : Stored lineHash disk d prev' seq') (htorn : d.torn = [])
    (hnumber : d.no + 1 < segmentNumbers) :
    Stored lineHash (disk.insert (d.no + 1) []) ⟨d.closed ++ [(d.no, d.lines)], d.no + 1, [], []⟩
      prev' seq' := by
  have hbehind : ∀ e ∈ disk.entries, e.1 < d.no + 1 := by
    have hsorted := disk.sorted
    rw [hstored.disk, Layout.segments, pairwise_append] at hsorted
    rw [hstored.disk, Layout.segments]
    intro e he
    obtain he | he := mem_append.mp he
    · exact (hsorted.2.2 e he _ (mem_singleton_self _)).trans (Nat.lt_succ_self _)
    · cases mem_singleton.mp he
      exact Nat.lt_succ_self _
  refine ⟨?_, not_mem_nil, ?_, hnumber, ?_⟩
  · rw [OrderedMap.entries_insert_behind hbehind, hstored.disk]
    simp [Layout.segments, Layout.closedSegments, htorn]
  · intro e he
    obtain he | he := mem_append.mp he
    · exact hstored.closedNumbers e he
    · cases mem_singleton.mp he
      exact hstored.number
  · have hlines : Layout.allLines ⟨d.closed ++ [(d.no, d.lines)], d.no + 1, [], []⟩ =
        d.allLines := by simp [Layout.allLines]
    rw [hlines]
    exact hstored.begins

theorem rollOver_sound (h : js.Lawful) (hs : Sound lineHash s) {j : Journal}
    (hj : s.session = some j) (hstale : s.stale = false)
    (hnumber : j.segmentNo + 1 < segmentNumbers) (state : js.Value) (ts : Text) (fault : RollFault)
    {ending : Ending} (hending : ending ≠ .unsynced) :
    Sound lineHash (s.after (j.rollOver lineHash s.disk state ts fault ending)
      (j.leaves checkpointKind ts (checkpointBody state) ending)) := by
  obtain ⟨-, hnone, -⟩ | ⟨d, prev', seq', hstored, haccounted, hsession⟩ := hs
  · rw [hj] at hnone
    cases hnone
  · obtain ⟨hfile, hno, hstep⟩ := hsession j hj
    have hstep := hstep hstale
    have hsame : Accounted (s.attempts ++ (none : Option (Attempt js)).toList) s.pruned
        d.allLines := by simpa using haccounted
    unfold Journal.rollOver
    dsimp only
    split_ifs with hexists
    · refine Or.inr ⟨d, prev', seq', hstored, hsame, ?_⟩
      rintro j' ⟨⟩
      exact ⟨hfile, hno, fun _ => hstep⟩
    · have hsegment : j.segmentNo = d.no := by
        apply hno.resolve_right
        intro hlast
        rw [hlast, hstored.get?_no] at hexists
        exact hexists (Or.inl rfl)
      rw [hsegment] at hnumber ⊢
      have hcreated := hstored.create hstep.1 hnumber
      have hlines : Layout.allLines ⟨d.closed ++ [(d.no, d.lines)], d.no + 1, [], []⟩ =
          d.allLines := by simp [Layout.allLines]
      rw [← hlines] at hsame haccounted
      have happend := append_appended (j := { j with
          file := d.no + 1
          segmentNo := d.no + 1
          segmentLen := 0 }) h hcreated rfl ⟨rfl, hstep.2⟩ haccounted checkpointKind ts
        (checkpointBody state) hending
      cases fault with
      | none => exact happend.sound rfl (Or.inl rfl)
      | create => exact absurd (Or.inr rfl) hexists
      | sync =>
        refine Or.inr ⟨_, _, _, hcreated, hsame, ?_⟩
        rintro j' ⟨⟩
        exact ⟨rfl, Or.inr rfl, fun _ => ⟨rfl, hstep.2⟩⟩
      | crashed =>
        refine Or.inr ⟨_, _, _, hcreated, hsame, ?_⟩
        rintro j' ⟨⟩

theorem exists_doomed {disk : Disk} {d : Layout js} {prev' : Option Text} {seq' : ℕ}
    (hstored : Stored lineHash disk d prev' seq') (old : ℕ → Bool) (done : ℕ) :
    ∃ k, doomed disk old done = Layout.closedSegments (d.closed.take k) ∧
      (prune disk old done).entries = Layout.segments { d with closed := d.closed.drop k } := by
  have hclosed : (listSegments disk).dropLast = Layout.closedSegments d.closed := by
    rw [hstored.listSegments_eq, Layout.segments, dropLast_concat]
  have hisPrefix : doomed disk old done <+: Layout.closedSegments d.closed := by
    rw [doomed, hclosed]
    exact ( take_prefix _ _).trans ( takeWhile_prefix _)
  obtain ⟨k, htake⟩ : ∃ k, doomed disk old done = Layout.closedSegments (d.closed.take k) := by
    refine ⟨(doomed disk old done).length, ?_⟩
    rw [Layout.closedSegments, map_take]
    exact prefix_iff_eq_take.mp hisPrefix
  refine ⟨k, htake, OrderedMap.entries_filter_behind ?_⟩
  simp only [htake, hstored.disk, Layout.segments, Layout.closedSegments]
  rw [← append_assoc, ← map_append, take_append_drop]

theorem flatMap_segments (d : Layout js) :
    d.segments.flatMap Prod.snd = joinLines d.allLines ++ d.torn := by
  have hclosed : (Layout.closedSegments d.closed).flatMap Prod.snd =
      joinLines (d.closed.flatMap Prod.snd) := by
    induction d.closed with
    | nil => rfl
    | cons segment closed ih =>
      rw [flatMap_cons, joinLines_append, ← ih]
      rfl
  rw [Layout.segments, flatMap_append, hclosed, Layout.allLines, joinLines_append]
  simp

theorem head_checkpoint (h : js.Lawful) {d : Layout js} (htorn : newline ∉ d.torn)
    {prev prev' : Option Text} {seq seq' : ℕ} (hchain : Chain lineHash prev seq d.allLines prev' seq')
    (hopens : opensWithCheckpoint js d.segments = true) :
    ∃ l ∈ d.allLines.head?, l.record.kind = checkpointKind := by
  unfold opensWithCheckpoint at hopens
  rw [flatMap_segments, Bool.and_eq_true] at hopens
  obtain ⟨hline, hkind⟩ := hopens
  cases hlines : d.allLines with
  | nil =>
    rw [hlines, joinLines_nil, nil_append] at hline
    have hnone : d.torn.dropWhile (· ≠ newline) = [] := by
      rw [dropWhile_eq_nil_iff]
      intro b hb
      rw [decide_eq_true_eq]
      rintro rfl
      exact htorn hb
    rw [hnone] at hline
    cases hline
  | cons l lines =>
    rw [hlines] at hchain hkind
    cases hchain with
    | cons hwritten _ _ =>
      have hnewline := hwritten.newline_notMem h
      obtain ⟨fields, -, hplain, hbytes⟩ := hwritten
      rw [joinLines_cons, (takeWhile_newline hnewline _).1, hbytes, h.fromBytes_toBytes,
        Option.any_some, decide_eq_true_eq, h.index_object, get?_recordObject _ hplain] at hkind
      have hstring : js.asStr (js.string l.record.kind) = some checkpointKind := hkind
      rw [h.asStr_string] at hstring
      exact ⟨l, rfl, Option.some.inj hstring⟩

theorem prune_sound (h : js.Lawful) (hs : Sound lineHash s) {old : ℕ → Bool} {done : ℕ}
    (hkeeps : (∀ e ∈ doomed s.disk old done, e.2 = []) ∨
      opensWithCheckpoint js (listSegments (prune s.disk old done)) = true) :
    Sound lineHash { s with disk := prune s.disk old done, pruned := true } := by
  obtain ⟨hdisk, hsession, hattempts⟩ | ⟨d, prev', seq', hstored, haccounted, hsession⟩ := hs
  · exact Or.inl ⟨by rw [hdisk]; rfl, hsession, hattempts⟩
  · obtain ⟨k, hdoomed, hentries⟩ := exists_doomed hstored old done
    have hlines : d.allLines = (d.closed.take k).flatMap Prod.snd ++
        Layout.allLines { d with closed := d.closed.drop k } := by
      rw [Layout.allLines, Layout.allLines, ← append_assoc, ← flatMap_append,
        take_append_drop]
    have hnumbers : ∀ e ∈ d.closed.drop k, e.1 < segmentNumbers :=
      fun e he => hstored.closedNumbers e (mem_of_mem_drop he)
    have hlisted : listSegments (prune s.disk old done) =
        Layout.segments { d with closed := d.closed.drop k } := by
      rw [listSegments, hentries, filter_eq_self]
      intro e he
      have hmem : e ∈ listSegments s.disk := by
        rw [hstored.listSegments_eq]
        obtain he | he := mem_append.mp he
        · obtain ⟨segment, hsegment, rfl⟩ := List.mem_map.mp he
          exact mem_append_left _
            (List.mem_map_of_mem (mem_of_mem_drop hsegment))
        · exact mem_append_right _ he
      exact (mem_filter.mp hmem).2
    obtain ⟨prev, seq, hchain, hfirst⟩ := hstored.begins
    rw [hlines] at hchain
    obtain ⟨middle, number, -, hrest⟩ := hchain.split
    rw [hlisted] at hkeeps
    have hhead := hkeeps.imp_right
      (head_checkpoint (d := { d with closed := d.closed.drop k }) h hstored.torn hrest)
    obtain hempty | hhead := hhead
    · have hnil : (d.closed.take k).flatMap Prod.snd = [] := by
        rw [flatMap_eq_nil_iff]
        intro segment hsegment
        have hbytes : joinLines segment.2 = [] := hempty (segment.1, joinLines segment.2) (by
          rw [hdoomed]
          exact List.mem_map_of_mem hsegment)
        cases hcases : segment.2 with
        | nil => rfl
        | cons l lines =>
          rw [hcases] at hbytes
          simp [joinLines] at hbytes
      rw [hnil, nil_append] at hlines
      have hbegins := hstored.begins
      rw [hlines] at hbegins haccounted
      exact Or.inr ⟨_, _, _, ⟨hentries, hstored.torn, hnumbers, hstored.number, hbegins⟩,
        haccounted.pruned, hsession⟩
    · rw [hlines] at haccounted
      exact Or.inr ⟨_, _, _, ⟨hentries, hstored.torn, hnumbers, hstored.number,
        middle, number, hrest, Or.inr hhead⟩, haccounted.drop hhead, hsession⟩

theorem step_sound (h : js.Lawful) (hs : Sound lineHash s) {op : Op js} (hmeets : Meets s op) :
    Sound lineHash (step lineHash s op) := by
  cases op with
  | openJournal run ts fault ending =>
    rw [step]
    split
    · exact hs
    · exact openJournal_sound h hs run ts fault hmeets
  | append kind ts body ending =>
    rw [step]
    split
    case h_1 j hj => exact append_sound h hs hj hmeets.1 kind ts body hmeets.2
    case h_2 => exact hs
  | rollOver state ts fault ending =>
    obtain ⟨hstale, hending, hnumber⟩ := hmeets
    rw [step]
    split
    case h_1 j hj => exact rollOver_sound h hs hj hstale (hnumber j hj) state ts fault hending
    case h_2 => exact hs
  | prune old done => exact prune_sound h hs hmeets
  | close =>
    obtain ⟨hdisk, -, hattempts⟩ | ⟨d, prev', seq', hstored, haccounted, -⟩ := hs
    · exact Or.inl ⟨hdisk, rfl, hattempts⟩
    · exact Or.inr ⟨d, prev', seq', hstored, haccounted, fun j hj => by cases hj⟩

theorem Sound.recovers (h : js.Lawful) (hs : Sound lineHash s) : Recovers lineHash s := by
  intro run ts
  obtain ⟨hdisk, -, hattempts⟩ | ⟨d, prev', seq', hstored, haccounted, -⟩ := hs
  · refine ⟨[], by rw [hdisk]; rfl, ⟨[], [], hattempts, .nil, Or.inl rfl⟩, 1, rfl⟩
  · refine ⟨_, openWith_result h hstored run ts, ?_, ?_⟩
    · obtain ⟨dropped, kept, heq, hkept, hfirst⟩ := haccounted
      refine ⟨dropped, kept, heq, hkept, hfirst.imp_right ?_⟩
      rintro ⟨hpruned, l, hl, hkind⟩
      rw [Option.mem_def] at hl
      exact ⟨hpruned, l.record, by rw [Option.mem_def, List.head?_map, hl]; rfl, hkind⟩
    · obtain ⟨prev, seq, hchain, -⟩ := hstored.begins
      refine ⟨seq, ?_⟩
      rw [List.map_map, length_map]
      exact hchain.seqs_eq

/-- Every journal whose history keeps to the conditions is read back, in every state on the way. -/
theorem recovers_of_meets (h : js.Lawful) {ops : List (Op js)}
    (hmeets : ∀ before op after, ops = before ++ op :: after → Meets (runOps lineHash before) op) :
    Recovers lineHash (runOps lineHash ops) := by
  apply Sound.recovers h
  induction ops using List.reverseRecOn with
  | nil => exact Or.inl ⟨rfl, rfl, rfl⟩
  | append_singleton ops op ih =>
    have hbefore : Sound lineHash (runOps lineHash ops) := by
      apply ih
      intro before op' after heq
      exact hmeets before op' (after ++ [op]) (by rw [heq]; simp)
    rw [runOps, foldl_concat]
    exact step_sound h hbefore (hmeets ops op [] rfl)

end Steps

end Sipnab.Operations
