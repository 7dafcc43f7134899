import Sipnab.Journal.Records

/-!
# The journal on disk

A journal is a directory of numbered segments, one record a line. Each record names its place and
the hash of the line before it. Opening a journal reads and checks every segment and cuts a torn
last line off; appending writes one line at the end of the last segment.
-/

namespace Sipnab.Operations

variable {js : Serde}

def journalVersion : ℕ := 1

def newline : UInt8 := 10

def envelope : List Text :=
  ["v".toList, "seq".toList, "ts".toList, "run".toList, "kind".toList, "prev".toList]

inductive Damage (js : Serde)
  | notARecord
  | noSequenceNumber
  | unknownVersion (v : js.Value)
  | outOfSequence (expected found : ℕ)
  | notFollowing
  | noBeginning

inductive JournalError (js : Serde)
  | io
  | broken (segment seq : ℕ) (why : Damage js)
  | reservedField (key : Text)

/-! ## Lines -/

def recordObject (r : Record js) (fields : OrderedMap Text js.Value) (prev : Option Text) :
    OrderedMap Text js.Value :=
  let head := ((((OrderedMap.empty.insert "v".toList (js.number journalVersion)).insert
    "seq".toList (js.number r.seq)).insert "ts".toList (js.string r.ts)).insert
    "run".toList (js.string r.run)).insert "kind".toList (js.string r.kind)
  let record := fields.entries.foldl (fun m e => m.insert e.1 e.2) head
  match prev with
  | some prev => record.insert "prev".toList (js.string prev)
  | none => record

/-- A record's envelope and its link to the record before it. -/
def checkLink (value : js.Value) (prev : Option Text) (expectedSeq : Option ℕ) (segment : ℕ) :
    Except (JournalError js) (Record js) :=
  match js.asU64 (Serde.index value "seq".toList) with
  | none => .error (.broken segment (expectedSeq.getD 0) .noSequenceNumber)
  | some seq =>
    let v := Serde.index value "v".toList
    if js.asU64 v ≠ some journalVersion then .error (.broken segment seq (.unknownVersion v))
    else
      let kind := (js.asStr (Serde.index value "kind".toList)).getD []
      let record : Record js :=
        { seq := seq
          ts := (js.asStr (Serde.index value "ts".toList)).getD []
          run := (js.asStr (Serde.index value "run".toList)).getD []
          kind := kind
          body := js.object (envelope.foldl OrderedMap.erase
            ((js.asObject value).getD OrderedMap.empty)) }
      match expectedSeq, prev with
      | some expected, some prev =>
        if seq ≠ expected then .error (.broken segment seq (.outOfSequence expected seq))
        else if js.asStr (Serde.index value "prev".toList) ≠ some prev then
          .error (.broken segment seq .notFollowing)
        else .ok record
      | _, _ =>
        -- the start of the journal, or the checkpoint that pruning left first
        if seq ≠ 1 ∧ kind ≠ checkpointKind then .error (.broken segment seq .noBeginning)
        else .ok record

/-! ## Reading -/

structure Reading (js : Serde) where
  records : List (Record js)
  tornBytes : ℕ
  prev : Option Text
  nextSeq : Option ℕ

def Reading.start : Reading js := ⟨[], 0, none, none⟩

variable (lineHash : Bytes → Text)

/-- The lines of a segment, with a bound on their number. -/
def readLines (isLast : Bool) (segment : ℕ) :
    ℕ → Reading js → Bytes → Except (JournalError js) (Reading js)
  | 0, reading, _ => .ok reading
  | n + 1, reading, bytes =>
    if bytes.isEmpty then .ok reading
    else
      let raw := bytes.takeWhile (· ≠ newline)
      let behind := bytes.dropWhile (· ≠ newline)
      let isFinalLine := isLast && (behind.isEmpty || behind.tail.isEmpty)
      match if behind.isEmpty then none else js.fromBytes raw with
      | none =>
        if isFinalLine then .ok { reading with tornBytes := bytes.length }
        else .error (.broken segment (reading.nextSeq.getD 0) .notARecord)
      | some value =>
        match checkLink value reading.prev reading.nextSeq segment with
        | .error e => .error e
        | .ok record =>
          readLines isLast segment n
            { reading with
              records := reading.records ++ [record]
              prev := some (lineHash raw)
              nextSeq := some (record.seq + 1) } behind.tail

def readSegmentsFrom (reading : Reading js) :
    List (ℕ × Bytes) → Except (JournalError js) (Reading js)
  | [] => .ok reading
  | (segment, bytes) :: segments =>
    match readLines lineHash segments.isEmpty segment bytes.length reading bytes with
    | .error e => .error e
    | .ok reading => readSegmentsFrom reading segments

def readSegments (segments : List (ℕ × Bytes)) : Except (JournalError js) (Reading js) :=
  readSegmentsFrom lineHash .start segments

/-! ## The directory -/

abbrev Disk := OrderedMap ℕ Bytes

def segmentNumbers : ℕ := 1000000

def listSegments (disk : Disk) : List (ℕ × Bytes) :=
  disk.entries.filter (fun e => e.1 < segmentNumbers)

def Disk.bytes (disk : Disk) (segment : ℕ) : Bytes := (disk.get? segment).getD []

def Disk.write (disk : Disk) (segment : ℕ) (bytes : Bytes) : Disk :=
  disk.insert segment (disk.bytes segment ++ bytes)

structure Journal where
  /-- The segment its file is. -/
  file : ℕ
  segmentNo : ℕ
  segmentLen : ℕ
  seq : ℕ
  prev : Option Text
  run : Text
  deriving DecidableEq

/-! ## Appending -/

/-- How a line is written: to its end and synced, a part of it until the write fails, all of it
with the write or the sync failing then, or a part of it until the process ends. -/
inductive Ending
  | ok
  | failed (reached : ℕ)
  | unsynced
  | crashed (reached : ℕ)
  deriving DecidableEq

def Ending.reached (line : Bytes) : Ending → Bytes
  | .ok => line ++ [newline]
  | .failed n => line.take n
  | .unsynced => line ++ [newline]
  | .crashed n => (line ++ [newline]).take n

inductive Returned
  | ok
  | error
  | never
  deriving DecidableEq

def Ending.returned : Ending → Returned
  | .ok => .ok
  | .failed _ => .error
  | .unsynced => .error
  | .crashed _ => .never

structure Attempt (js : Serde) where
  record : Record js
  returned : Returned

def admitBody (body : js.Value) : Except (JournalError js) (OrderedMap Text js.Value) :=
  match js.asObject body with
  | none => .error (.reservedField "(not an object)".toList)
  | some fields =>
    match envelope.find? (fun k => (fields.get? k).isSome) with
    | some k => .error (.reservedField k)
    | none => .ok fields

def Journal.nextRecord (j : Journal) (kind ts : Text) (fields : OrderedMap Text js.Value) :
    Record js :=
  { seq := j.seq + 1, ts := ts, run := j.run, kind := kind, body := js.object fields }

def Journal.nextLine (j : Journal) (kind ts : Text) (fields : OrderedMap Text js.Value) : Bytes :=
  js.toBytes (js.object (recordObject (j.nextRecord kind ts fields) fields j.prev))

/-- Where a call leaves the directory and the journal, with the line it tried to write. -/
structure Called (js : Serde) where
  disk : Disk
  /-- Nothing once the process has ended. -/
  journal : Option Journal
  attempt : Option (Attempt js)
  returned : Returned

def Journal.append (j : Journal) (disk : Disk) (kind ts : Text) (body : js.Value)
    (ending : Ending) : Called js :=
  match admitBody body with
  | .error _ => ⟨disk, some j, none, .error⟩
  | .ok fields =>
    let line := j.nextLine kind ts fields
    { disk := disk.write j.file (ending.reached line)
      journal := match ending with
        | .ok => some { j with
            seq := j.seq + 1
            prev := some (lineHash line)
            segmentLen := j.segmentLen + line.length + 1 }
        | .crashed _ => none
        | _ => some j
      attempt := some ⟨j.nextRecord kind ts fields, ending.returned⟩
      returned := ending.returned }

/-! ## Opening, rolling over and pruning -/

inductive OpenFault
  | none
  | beforeRepair
  | afterRepair
  | afterCreate
  deriving DecidableEq

def repair (disk : Disk) (segments : List (ℕ × Bytes)) (tornBytes : ℕ) : Disk :=
  match segments.getLast? with
  | some (no, bytes) =>
    if 0 < tornBytes then disk.insert no (bytes.take (bytes.length - tornBytes)) else disk
  | none => disk

def tornBody (tornBytes : ℕ) : js.Value :=
  js.object (OrderedMap.empty.insert "bytes".toList (js.number tornBytes))

structure Opened (js : Serde) where
  called : Called js
  result : Except (JournalError js) (List (Record js))

def Opened.refused (disk : Disk) (e : JournalError js) : Opened js :=
  ⟨⟨disk, none, none, .error⟩, .error e⟩

def openRead (disk : Disk) (segments : List (ℕ × Bytes)) (reading : Reading js) (run ts : Text)
    (fault : OpenFault) (ending : Ending) : Opened js :=
  if fault = .beforeRepair then .refused disk .io
  else
    let repaired := repair disk segments reading.tornBytes
    if fault = .afterRepair then .refused repaired .io
    else
      let no := (segments.getLast?.map Prod.fst).getD 1
      let disk := if segments.isEmpty then repaired.insert no [] else repaired
      if fault = .afterCreate then .refused disk .io
      else
        let journal : Journal :=
          { file := no
            segmentNo := no
            segmentLen := (Disk.bytes disk no).length
            seq := reading.nextSeq.elim 0 (fun n => n - 1)
            prev := reading.prev
            run := run }
        if 0 < reading.tornBytes then
          let called := journal.append lineHash disk tornTailKind ts (tornBody reading.tornBytes)
            ending
          if called.returned = .ok then ⟨called, .ok reading.records⟩
          else ⟨{ called with journal := none }, .error .io⟩
        else ⟨⟨disk, some journal, none, .ok⟩, .ok reading.records⟩

def openWith (disk : Disk) (run ts : Text) (fault : OpenFault) (ending : Ending) : Opened js :=
  match readSegments lineHash (listSegments disk) with
  | .error e => .refused disk e
  | .ok reading => openRead lineHash disk (listSegments disk) reading run ts fault ending

/-- Where rolling over fails or the process ends before the checkpoint is written. -/
inductive RollFault
  | none
  | create
  | sync
  | crashed
  deriving DecidableEq

def checkpointBody (state : js.Value) : js.Value :=
  js.object (OrderedMap.empty.insert "state".toList state)

def Journal.rollOver (j : Journal) (disk : Disk) (state : js.Value) (ts : Text)
    (fault : RollFault) (ending : Ending) : Called js :=
  let no := j.segmentNo + 1
  if (disk.get? no).isSome ∨ fault = .create then ⟨disk, some j, none, .error⟩
  else
    let created := disk.insert no []
    match fault with
    | .sync => ⟨created, some { j with file := no }, none, .error⟩
    | .crashed => ⟨created, none, none, .never⟩
    | _ => Journal.append lineHash { j with file := no, segmentNo := no, segmentLen := 0 } created
        checkpointKind ts (checkpointBody state) ending

/-- The closed segments that pruning comes to delete: those that are old enough, oldest first, or
the first `done` of them if it fails or the process ends then. -/
def doomed (disk : Disk) (old : ℕ → Bool) (done : ℕ) : List (ℕ × Bytes) :=
  ((listSegments disk).dropLast.takeWhile (fun e => old e.1)).take done

def prune (disk : Disk) (old : ℕ → Bool) (done : ℕ) : Disk :=
  disk.filter (fun no => no ∉ (doomed disk old done).map Prod.fst)

end Sipnab.Operations
