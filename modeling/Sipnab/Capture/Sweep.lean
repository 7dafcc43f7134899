import Sipnab.Sip.DialogStore

/-!
# Sweeps over capture files

A sweep reads each candidate into scratch stores of its own and counts the dialogs that a filter
selects. It is complete when no file is left out and every one was examined, as far as the reader
says.
-/

namespace Sipnab

inductive StoppedBecause
  | deadline | maxFiles | canceled | shutdown
  deriving DecidableEq

def StoppedBecause.asStr : StoppedBecause → String
  | .deadline => "deadline"
  | .maxFiles => "max-files"
  | .canceled => "canceled"
  | .shutdown => "shutdown"

/-! ## What a file holds -/

/-- How the frames of an opened capture end: at the end of the file, or at a frame that cannot be
read. -/
inductive CaptureEnd
  | eof | cut
  deriving DecidableEq

/-- One file: a stored container with its messages rebuilt, or a capture. -/
inductive CaptureMember (Frame : Type)
  | container (rebuilt : Except String (List Frame))
  | capture (opened : Except String (List Frame × CaptureEnd))

/-- The captures of an archive in read order; `incomplete` says that it was not read to its end. -/
structure ArchiveSet (Frame : Type) where
  incomplete : Bool
  members : List (CaptureMember Frame)

inductive CaptureSource (Frame : Type)
  | single (member : CaptureMember Frame)
  | archive (set : Except String (ArchiveSet Frame))

structure Candidate (Frame : Type) where
  filename : String
  source : CaptureSource Frame

/-! ## Reading into stores -/

/-- What becomes of a frame: the message in it, if it holds one to track, and what it does to the
streams. A file starts with a new heuristic. -/
structure Pipeline (Frame Media : Type) where
  env : StoreEnv
  newMedia : ℕ → Media
  reopen : Media → Media
  messageOf : Media → Frame → Option SipMessage
  onMedia : Media → Frame → Media

structure Stores (Media : Type) where
  dialogs : DialogStore
  media : Media

structure ReadOutcome where
  packets : ℕ
  error : Option String
  stoppedEarly : Bool
  deriving DecidableEq

/-- The answers at one moment to the questions whether to stop. -/
structure Asked where
  shutdown : Bool
  inside : Option StoppedBecause
  between : Option StoppedBecause

def Asked.reason (a : Asked) : Option String :=
  if a.shutdown then some "shutdown requested during the load"
  else a.inside.map (fun r => "sweep stopped: " ++ r.asStr)

/-- A read with the stores it leaves and the number of questions asked so far. -/
structure Reading (Media : Type) where
  outcome : ReadOutcome
  stores : Stores Media
  tick : ℕ

namespace Pipeline

variable {Frame Media : Type} (P : Pipeline Frame Media) (control : ℕ → Asked)

def scratch (rowCap : ℕ) : Stores Media :=
  ⟨{ maxDialogs := rowCap, rotate := false }, P.newMedia rowCap⟩

def processPacket (stores : Stores Media) (frame : Frame) : Stores Media :=
  { dialogs := (P.messageOf stores.media frame).elim stores.dialogs
      (stores.dialogs.processMessage P.env)
    media := P.onMedia stores.media frame }

def processAll (stores : Stores Media) (frames : List Frame) : Stores Media :=
  frames.foldl P.processPacket { stores with media := P.reopen stores.media }

/-- The loop over the packets; the stop is asked for before each of them and before the end. -/
def readPackets (ending : CaptureEnd) : List Frame → ℕ → Stores Media → ℕ → Reading Media
  | frames, packets, stores, tick =>
    match (control tick).reason with
    | some reason => ⟨⟨packets, some reason, true⟩, stores, tick + 1⟩
    | none =>
      match frames with
      | [] => ⟨⟨packets, none, decide (ending = .cut)⟩, stores, tick + 1⟩
      | frame :: rest =>
        readPackets ending rest (packets + 1) (P.processPacket stores frame) (tick + 1)

def readOne (member : CaptureMember Frame) (stores : Stores Media) (tick : ℕ) : Reading Media :=
  match member with
  | .container (.error e) => ⟨⟨0, some e, true⟩, stores, tick⟩
  | .container (.ok frames) => ⟨⟨frames.length, none, false⟩, P.processAll stores frames, tick⟩
  | .capture (.error e) => ⟨⟨0, some e, true⟩, stores, tick⟩
  | .capture (.ok (frames, ending)) =>
    P.readPackets control ending frames 0 { stores with media := P.reopen stores.media } tick

def readMembers : List (CaptureMember Frame) → Reading Media → Reading Media
  | [], total => total
  | member :: rest, total =>
    let one := P.readOne control member total.stores total.tick
    let next : Reading Media :=
      { outcome := ⟨total.outcome.packets + one.outcome.packets, one.outcome.error,
          total.outcome.stoppedEarly || one.outcome.stoppedEarly⟩
        stores := one.stores
        tick := one.tick }
    if one.outcome.error.isSome then next else readMembers rest next

def readIntoStoresUntil (source : CaptureSource Frame) (stores : Stores Media) (tick : ℕ) :
    Reading Media :=
  match source with
  | .single member => P.readOne control member stores tick
  | .archive (.error e) => ⟨⟨0, some e, true⟩, stores, tick⟩
  | .archive (.ok set) =>
    P.readMembers control set.members ⟨⟨0, none, set.incomplete⟩, stores, tick⟩

end Pipeline

/-! ## The sweep -/

structure UnreadableFile where
  filename : String
  reason : String
  deriving DecidableEq

structure FileMatch where
  filename : String
  dialogsMatched : ℕ
  firstCallId : Option String
  deriving DecidableEq

structure SweepOutcome where
  found : List FileMatch
  filesExamined : ℕ
  filesTotal : ℕ
  unreadable : List UnreadableFile
  stoppedBecause : Option StoppedBecause
  complete : Bool

/-- The only place that decides whether a sweep is complete. -/
def sweepOutcome (found : List FileMatch) (filesExamined filesTotal : ℕ)
    (unreadable : List UnreadableFile) (stoppedBecause : Option StoppedBecause) : SweepOutcome :=
  { found := found
    filesExamined := filesExamined
    filesTotal := filesTotal
    unreadable := unreadable
    stoppedBecause := stoppedBecause
    complete := stoppedBecause.isNone ∧ unreadable = [] ∧ filesExamined = filesTotal }

/-- A control character is dropped, and what is left is cut. -/
def boundText (value : String) : String :=
  String.ofList ((value.toList.filter (fun c =>
    ¬(c.toNat < 32 ∨ (127 ≤ c.toNat ∧ c.toNat < 160)))).take 200)

abbrev DialogFilter (Media : Type) := SipDialog → Media → Bool

structure SweepInput (Frame Media : Type) where
  candidates : List (Candidate Frame)
  filter : DialogFilter Media
  rowCap : ℕ
  maxFiles : ℕ

structure SweepState where
  found : List FileMatch
  unreadable : List UnreadableFile
  examined : ℕ
  tick : ℕ

def selectedDialogs {Media : Type} (filter : DialogFilter Media) (stores : Stores Media) :
    List SipDialog :=
  stores.dialogs.dialogs.values.filter (fun d => filter d stores.media)

def matchesOf {Media : Type} (filter : DialogFilter Media) (filename : String)
    (stores : Stores Media) : List FileMatch :=
  let hits := selectedDialogs filter stores
  if 0 < hits.length then [⟨filename, hits.length, hits.head?.map SipDialog.callId⟩] else []

namespace Pipeline

variable {Frame Media : Type} (P : Pipeline Frame Media) (control : ℕ → Asked)

/-- The loop over the candidates, with the reason why it stopped. -/
def sweepLoop (input : SweepInput Frame Media) :
    List (Candidate Frame) → SweepState → SweepState × Option StoppedBecause
  | [], st => (st, none)
  | candidate :: rest, st =>
    if input.maxFiles ≤ st.examined then (st, some .maxFiles)
    else
      match (control st.tick).between with
      | some reason => (st, some reason)
      | none =>
        let read := P.readIntoStoresUntil control candidate.source (P.scratch input.rowCap)
          (st.tick + 1)
        match read.outcome.error with
        | some e =>
          match (control read.tick).between with
          | some reason => (st, some reason)
          | none =>
            sweepLoop input rest { st with
              unreadable := st.unreadable ++ [⟨boundText candidate.filename, boundText e⟩]
              tick := read.tick + 1 }
        | none =>
          sweepLoop input rest { st with
            examined := st.examined + 1
            found := st.found ++ matchesOf input.filter candidate.filename read.stores
            tick := read.tick }

def sweepFiles (input : SweepInput Frame Media) : SweepOutcome :=
  let (st, stopped) := P.sweepLoop control input input.candidates ⟨[], [], 0, 0⟩
  sweepOutcome st.found st.examined input.candidates.length st.unreadable stopped

end Pipeline

end Sipnab
