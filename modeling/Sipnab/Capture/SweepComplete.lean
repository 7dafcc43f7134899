import Sipnab.Capture.Sweep
import Sipnab.Sip.StoreCapacity

/-!
# Complete sweeps

A sweep that reports itself complete was not stopped and could open every file. That it also read
every file to its end, and kept every dialog of it, is true exactly if no file is cut and none holds
more dialogs than the scratch store.
-/

namespace Sipnab

open Option IndexMap

/-! ## Files that can be read -/

namespace CaptureMember

variable {Frame : Type}

def frames : CaptureMember Frame → List Frame
  | .container (.ok frames) => frames
  | .capture (.ok (frames, _)) => frames
  | _ => []

def whole : CaptureMember Frame → Bool
  | .container (.ok _) => true
  | .capture (.ok (_, ending)) => ending = .eof
  | _ => false

def ticks : CaptureMember Frame → ℕ
  | .capture (.ok (frames, _)) => frames.length + 1
  | _ => 0

def Reads (control : ℕ → Asked) (tick : ℕ) : CaptureMember Frame → Prop
  | .container (.ok _) => True
  | .capture (.ok (frames, _)) => ∀ k ≤ frames.length, (control (tick + k)).reason = none
  | _ => False

end CaptureMember

namespace CaptureSource

variable {Frame Media : Type}

def members : CaptureSource Frame → List (CaptureMember Frame)
  | .single member => [member]
  | .archive (.ok set) => set.members
  | .archive (.error _) => []

/-- The file, and for an archive all that it holds, is there to its end. -/
def whole : CaptureSource Frame → Bool
  | .single member => member.whole
  | .archive (.ok set) => !set.incomplete && set.members.all CaptureMember.whole
  | .archive (.error _) => false

def ticks (source : CaptureSource Frame) : ℕ := (source.members.map CaptureMember.ticks).sum

def ReadsMembers (control : ℕ → Asked) : ℕ → List (CaptureMember Frame) → Prop
  | _, [] => True
  | tick, member :: rest =>
    member.Reads control tick ∧ ReadsMembers control (tick + member.ticks) rest

def Reads (control : ℕ → Asked) (tick : ℕ) : CaptureSource Frame → Prop
  | .archive (.error _) => False
  | source => ReadsMembers control tick source.members

end CaptureSource

namespace Pipeline

variable {Frame Media : Type} (P : Pipeline Frame Media)

def foldMembers (step : Stores Media → Frame → Stores Media) (members : List (CaptureMember Frame))
    (stores : Stores Media) : Stores Media :=
  members.foldl (fun stores member =>
    member.frames.foldl step { stores with media := P.reopen stores.media }) stores

/-- A packet into a store that always has room for one more dialog. -/
def processUnlimited (stores : Stores Media) (frame : Frame) : Stores Media :=
  P.processPacket { stores with
    dialogs := { stores.dialogs with maxDialogs := stores.dialogs.dialogs.length + 1 } } frame

def readStores (rowCap : ℕ) (source : CaptureSource Frame) : Stores Media :=
  P.foldMembers P.processPacket source.members (P.scratch rowCap)

/-- What the file holds: the same read with room for every dialog. -/
def fileStores (rowCap : ℕ) (source : CaptureSource Frame) : Stores Media :=
  P.foldMembers P.processUnlimited source.members (P.scratch rowCap)

/-! ## A read -/

section Read

variable {control : ℕ → Asked}

variable {tick : ℕ} (stores : Stores Media)

variable {ending : CaptureEnd} {frames : List Frame} {packets : ℕ} {member : CaptureMember Frame}
  {members : List (CaptureMember Frame)} {source : CaptureSource Frame}

theorem readPackets_of_silent {stores : Stores Media}
    (h : ∀ k ≤ frames.length, (control (tick + k)).reason = none) :
    P.readPackets control ending frames packets stores tick =
      ⟨⟨packets + frames.length, none, decide (ending = .cut)⟩, frames.foldl P.processPacket stores,
        tick + (frames.length + 1)⟩ := by
  induction frames generalizing packets tick stores with
  | nil =>
    have hnow : (control tick).reason = none := h 0 (Nat.zero_le _)
    rw [readPackets, hnow]
    rfl
  | cons frame rest ih =>
    have hnow : (control tick).reason = none := h 0 (Nat.zero_le _)
    have hrest : ∀ k ≤ rest.length, (control (tick + 1 + k)).reason = none := by
      intro k hk
      have hk' := h (k + 1) (by simpa using hk)
      rwa [show tick + 1 + k = tick + (k + 1) by omega]
    have hpackets : packets + 1 + rest.length = packets + (rest.length + 1) := by omega
    have htick : tick + 1 + (rest.length + 1) = tick + (rest.length + 1 + 1) := by omega
    rw [readPackets, hnow]
    simp only [ih hrest, List.length_cons, List.foldl_cons, hpackets, htick]

theorem readPackets_error {stores : Stores Media}
    (h : ¬∀ k ≤ frames.length, (control (tick + k)).reason = none) :
    (P.readPackets control ending frames packets stores tick).outcome.error ≠ none := by
  induction frames generalizing packets tick stores with
  | nil =>
    cases hnow : (control tick).reason with
    | none =>
      refine absurd (fun k hk => ?_) h
      obtain rfl := Nat.le_zero.mp hk
      exact hnow
    | some reason => simp [readPackets, hnow]
  | cons frame rest ih =>
    cases hnow : (control tick).reason with
    | none =>
      rw [readPackets, hnow]
      refine ih (fun hrest => h (fun k hk => ?_))
      cases k with
      | zero => exact hnow
      | succ k =>
        have hk' := hrest k (by simpa using hk)
        rwa [show tick + (k + 1) = tick + 1 + k by omega]
    | some reason => simp [readPackets, hnow]

theorem readOne_of_reads (h : member.Reads control tick) :
    ∃ packets, P.readOne control member stores tick =
      ⟨⟨packets, none, !member.whole⟩,
        member.frames.foldl P.processPacket { stores with media := P.reopen stores.media },
        tick + member.ticks⟩ := by
  match member, h with
  | .container (.ok frames), _ => exact ⟨frames.length, rfl⟩
  | .capture (.ok (frames, ending)), hsilent =>
    refine ⟨0 + frames.length, ?_⟩
    rw [readOne, P.readPackets_of_silent hsilent]
    cases ending <;> rfl

theorem readOne_error (h : ¬member.Reads control tick) :
    (P.readOne control member stores tick).outcome.error ≠ none := by
  match member, h with
  | .container (.error e), _ => simp [readOne]
  | .container (.ok frames), hnot => exact absurd trivial hnot
  | .capture (.error e), _ => simp [readOne]
  | .capture (.ok (frames, ending)), hnot => exact P.readPackets_error hnot

theorem readMembers_of_reads (total : Reading Media) (herror : total.outcome.error = none)
    (h : CaptureSource.ReadsMembers control total.tick members) :
    ∃ packets, P.readMembers control members total =
      ⟨⟨packets, none, total.outcome.stoppedEarly || !members.all CaptureMember.whole⟩,
        P.foldMembers P.processPacket members total.stores,
        total.tick + (members.map CaptureMember.ticks).sum⟩ := by
  induction members generalizing total with
  | nil =>
    refine ⟨total.outcome.packets, ?_⟩
    rcases total with ⟨⟨packets, error, early⟩, stores, tick⟩
    obtain rfl : error = none := herror
    simp [readMembers, foldMembers]
  | cons member rest ih =>
    obtain ⟨hmember, hrest⟩ := h
    obtain ⟨packets, hone⟩ := P.readOne_of_reads total.stores hmember
    rw [readMembers, hone]
    simp only [isSome_none, Bool.false_eq_true, if_false]
    obtain ⟨more, hmore⟩ := ih ⟨⟨total.outcome.packets + packets, none,
      total.outcome.stoppedEarly || !member.whole⟩, _, total.tick + member.ticks⟩ rfl hrest
    refine ⟨more, ?_⟩
    have hearly : (total.outcome.stoppedEarly || !member.whole || !rest.all CaptureMember.whole) =
        (total.outcome.stoppedEarly || !(member.whole && rest.all CaptureMember.whole)) := by
      cases total.outcome.stoppedEarly <;> cases member.whole <;> simp
    rw [hmore]
    simp only [foldMembers, List.foldl_cons, List.all_cons, List.map_cons, List.sum_cons, hearly,
      Nat.add_assoc]

theorem readMembers_error {total : Reading Media}
    (h : ¬CaptureSource.ReadsMembers control total.tick members) :
    (P.readMembers control members total).outcome.error ≠ none := by
  induction members generalizing total with
  | nil => exact absurd trivial h
  | cons member rest ih =>
    rw [readMembers]
    by_cases hmember : member.Reads control total.tick
    · obtain ⟨packets, hone⟩ := P.readOne_of_reads total.stores hmember
      rw [hone]
      simp only [isSome_none, Bool.false_eq_true, if_false]
      exact ih (fun hrest => h ⟨hmember, hrest⟩)
    · have herror := P.readOne_error total.stores hmember
      obtain ⟨e, he⟩ := ne_none_iff_exists'.mp herror
      simp only [he, isSome_some, if_true]
      exact some_ne_none e

theorem read_of_reads (rowCap : ℕ) (h : source.Reads control tick) :
    ∃ packets, P.readIntoStoresUntil control source (P.scratch rowCap) tick =
      ⟨⟨packets, none, !source.whole⟩, P.readStores rowCap source, tick + source.ticks⟩ := by
  match source, h with
  | .single member, h =>
    obtain ⟨packets, hone⟩ := P.readOne_of_reads (P.scratch rowCap) h.1
    refine ⟨packets, ?_⟩
    rw [readIntoStoresUntil, hone]
    simp [CaptureSource.whole, CaptureSource.ticks, CaptureSource.members, readStores, foldMembers]
  | .archive (.ok set), h =>
    have hreads : CaptureSource.ReadsMembers control tick set.members := h
    obtain ⟨packets, hall⟩ := P.readMembers_of_reads
      ⟨⟨0, none, set.incomplete⟩, P.scratch rowCap, tick⟩ rfl hreads
    refine ⟨packets, ?_⟩
    rw [readIntoStoresUntil, hall]
    simp [CaptureSource.whole, CaptureSource.ticks, CaptureSource.members, readStores]

theorem read_error (h : ¬source.Reads control tick) :
    (P.readIntoStoresUntil control source stores tick).outcome.error ≠ none := by
  match source, h with
  | .single member, h => exact P.readOne_error stores (fun hreads => h ⟨hreads, trivial⟩)
  | .archive (.error e), _ => simp [readIntoStoresUntil]
  | .archive (.ok set), h => exact P.readMembers_error h

end Read

end Pipeline

/-! ## Dialogs that are kept -/

namespace DialogStore

variable (env : StoreEnv) (s : DialogStore) (m : SipMessage)

/-- The dialogs behind a message, in a store that keeps what it has. -/
def dialogsAfter (cap : ℕ) : IndexMap String SipDialog :=
  match lookupKey s.tracking m with
  | none => s.dialogs
  | some key =>
    match s.dialogs.get? key with
    | some d => s.dialogs.insert key (advanceDialog env.readers env.maxMessagesPerDialog d m)
    | none =>
      if s.refuses m then s.dialogs
      else
        match openDialog env.readers m with
        | none => s.dialogs
        | some d => if cap ≤ s.dialogs.length then s.dialogs else s.dialogs.insert key d

structure SameConfig (s s' : DialogStore) : Prop where
  tracking : s'.tracking = s.tracking
  admission : s'.admission = s.admission
  rotate : s'.rotate = s.rotate
  maxDialogs : s'.maxDialogs = s.maxDialogs

variable {s}

theorem openNew_keeping (rd : BodyReaders) (key : String) (hrotate : s.rotate = false) :
    SameConfig s (s.openNew rd key m) ∧
      (s.openNew rd key m).dialogs = match openDialog rd m with
        | none => s.dialogs
        | some d =>
          if s.maxDialogs ≤ s.dialogs.length then s.dialogs else s.dialogs.insert key d := by
  unfold openNew
  by_cases hfull : s.maxDialogs ≤ s.dialogs.length
  · rw [if_pos ⟨hfull, hrotate⟩]
    refine ⟨⟨rfl, rfl, rfl, rfl⟩, ?_⟩
    cases openDialog rd m <;> simp [hfull]
  · have hroom : s.makeRoom = s := if_neg hfull
    rw [if_neg (fun h => hfull h.1), hroom]
    cases openDialog rd m with
    | none => exact ⟨⟨rfl, rfl, rfl, rfl⟩, rfl⟩
    | some d => exact ⟨⟨rfl, rfl, rfl, rfl⟩, by simp [hfull]⟩

theorem processMessage_keeping (hrotate : s.rotate = false) :
    SameConfig s (s.processMessage env m) ∧
      (s.processMessage env m).dialogs = s.dialogsAfter env m s.maxDialogs := by
  have htouch : SameConfig s (s.touch m.timestamp) := ⟨by simp, by simp, by simp, by simp⟩
  unfold dialogsAfter
  cases hkey : lookupKey s.tracking m with
  | none =>
    rw [processMessage_keyless hkey]
    exact ⟨htouch, by simp⟩
  | some key =>
    dsimp only
    cases hd : s.dialogs.get? key with
    | some d =>
      rw [processMessage_held hkey hd]
      exact ⟨⟨htouch.tracking, htouch.admission, htouch.rotate, htouch.maxDialogs⟩, rfl⟩
    | none =>
      rw [processMessage_unheld hkey hd]
      by_cases hrefuses : s.refuses m
      · simp only [hrefuses, if_true]
        exact ⟨htouch, by simp⟩
      · simp only [hrefuses, if_false]
        obtain ⟨hconfig, hdialogs⟩ := openNew_keeping m env.readers key
          (htouch.rotate.trans hrotate)
        refine ⟨⟨hconfig.tracking.trans htouch.tracking, hconfig.admission.trans htouch.admission,
          hconfig.rotate.trans htouch.rotate, hconfig.maxDialogs.trans htouch.maxDialogs⟩, ?_⟩
        simpa using hdialogs

variable (s)

theorem length_dialogsAfter (cap : ℕ) :
    s.dialogs.length ≤ (s.dialogsAfter env m cap).length ∧
      (s.dialogs.length ≤ cap → (s.dialogsAfter env m cap).length ≤ cap) := by
  unfold dialogsAfter
  cases lookupKey s.tracking m with
  | none => exact ⟨le_rfl, id⟩
  | some key =>
    dsimp only
    cases hd : s.dialogs.get? key with
    | some d =>
      have hmem : key ∈ s.dialogs.keys := mem_keys_of_mem_entries (IndexMap.get?_eq_some_iff.mp hd)
      simp only [IndexMap.insert, length_alter_of_mem hmem]
      exact ⟨le_rfl, id⟩
    | none =>
      have hnot : key ∉ s.dialogs.keys := IndexMap.get?_eq_none_iff.mp hd
      by_cases hrefuses : s.refuses m
      · simp only [hrefuses, if_true]
        exact ⟨le_rfl, id⟩
      · simp only [hrefuses, if_false]
        cases openDialog env.readers m with
        | none => exact ⟨le_rfl, id⟩
        | some d =>
          dsimp only
          by_cases hfull : cap ≤ s.dialogs.length
          · simp only [hfull, if_true]
            exact ⟨le_rfl, id⟩
          · simp only [hfull, if_false, IndexMap.insert, length_alter_of_not_mem hnot]
            omega

variable {cap : ℕ}

theorem dialogsAfter_eq (hfits : (s.dialogsAfter env m (s.dialogs.length + 1)).length ≤ cap) :
    s.dialogsAfter env m cap = s.dialogsAfter env m (s.dialogs.length + 1) := by
  unfold dialogsAfter at hfits ⊢
  cases hkey : lookupKey s.tracking m with
  | none => rfl
  | some key =>
    simp only [hkey] at hfits
    dsimp only
    cases hd : s.dialogs.get? key with
    | some d => rfl
    | none =>
      have hnot : key ∉ s.dialogs.keys := IndexMap.get?_eq_none_iff.mp hd
      by_cases hrefuses : s.refuses m
      · simp only [hrefuses, if_true]
      · cases hopen : openDialog env.readers m with
        | none => rfl
        | some d =>
          have hroom : ¬s.dialogs.length + 1 ≤ s.dialogs.length := by omega
          simp only [hd, hrefuses, hopen, hroom, if_false, IndexMap.insert,
            length_alter_of_not_mem hnot] at hfits
          have hcap : ¬cap ≤ s.dialogs.length := by omega
          simp only [hrefuses, hroom, hcap, if_false]

theorem dialogsAfter_congr {s s' : DialogStore} (htracking : s.tracking = s'.tracking)
    (hadmission : s.admission = s'.admission) (hdialogs : s.dialogs = s'.dialogs) :
    s.dialogsAfter env m cap = s'.dialogsAfter env m cap := by
  have hrefuses : s.refuses m ↔ s'.refuses m := by rw [refuses, refuses, hadmission]
  simp only [dialogsAfter, htracking, hdialogs, hrefuses]

end DialogStore

namespace Pipeline

variable {Frame Media : Type} (P : Pipeline Frame Media) {rowCap : ℕ}

/-- The read into a bounded store beside the read with room for all: the bounded one never holds
more than its bound, and the two agree as long as the other one fits. -/
structure Tracks (rowCap : ℕ) (bounded all : Stores Media) : Prop where
  media : bounded.media = all.media
  tracking : bounded.dialogs.tracking = all.dialogs.tracking
  admission : bounded.dialogs.admission = all.dialogs.admission
  keeping : bounded.dialogs.rotate = false ∧ all.dialogs.rotate = false
  maxDialogs : bounded.dialogs.maxDialogs = rowCap
  bound : bounded.dialogs.dialogs.length ≤ rowCap
  same : all.dialogs.dialogs.length ≤ rowCap → bounded.dialogs.dialogs = all.dialogs.dialogs

theorem tracks_scratch : Tracks rowCap (P.scratch rowCap) (P.scratch rowCap) where
  media := rfl
  tracking := rfl
  admission := rfl
  keeping := ⟨rfl, rfl⟩
  maxDialogs := rfl
  bound := Nat.zero_le _
  same := fun _ => rfl

variable {a b : Stores Media}

theorem Tracks.reopen (h : Tracks rowCap a b) :
    Tracks rowCap { a with media := P.reopen a.media } { b with media := P.reopen b.media } :=
  { h with media := congrArg P.reopen h.media }

theorem Tracks.step (h : Tracks rowCap a b) (frame : Frame) :
    Tracks rowCap (P.processPacket a frame) (P.processUnlimited b frame) := by
  have hmedia : P.onMedia a.media frame = P.onMedia b.media frame := by rw [h.media]
  unfold processUnlimited processPacket
  rw [h.media]
  cases hm : P.messageOf b.media frame with
  | none => exact { h with media := rfl }
  | some m =>
    obtain ⟨ha, hadialogs⟩ := DialogStore.processMessage_keeping P.env m h.keeping.1
    set roomy := { b.dialogs with maxDialogs := b.dialogs.dialogs.length + 1 } with hroomy
    obtain ⟨hb, hbdialogs⟩ := DialogStore.processMessage_keeping (s := roomy) P.env m h.keeping.2
    have hgrows := (roomy.length_dialogsAfter P.env m roomy.maxDialogs).1
    rw [h.maxDialogs] at hadialogs
    refine ⟨rfl, ha.tracking.trans (h.tracking.trans hb.tracking.symm),
      ha.admission.trans (h.admission.trans hb.admission.symm),
      ⟨ha.rotate.trans h.keeping.1, hb.rotate.trans h.keeping.2⟩, ha.maxDialogs.trans h.maxDialogs,
      ?_, ?_⟩
    · change (a.dialogs.processMessage P.env m).dialogs.length ≤ rowCap
      rw [hadialogs]
      exact (a.dialogs.length_dialogsAfter P.env m rowCap).2 h.bound
    · change (roomy.processMessage P.env m).dialogs.length ≤ rowCap →
        (a.dialogs.processMessage P.env m).dialogs = (roomy.processMessage P.env m).dialogs
      intro hfits
      rw [hbdialogs] at hfits
      rw [hadialogs, hbdialogs, DialogStore.dialogsAfter_congr P.env m h.tracking h.admission
        (h.same (hgrows.trans hfits))]
      exact roomy.dialogsAfter_eq P.env m hfits

theorem tracks_foldMembers (members : List (CaptureMember Frame)) (h : Tracks rowCap a b) :
    Tracks rowCap (P.foldMembers P.processPacket members a)
      (P.foldMembers P.processUnlimited members b) := by
  refine List.foldl_rel h (fun member _ a b hab => ?_)
  exact List.foldl_rel (hab.reopen P) (fun frame _ a b hab => hab.step P frame)

theorem tracks_read (source : CaptureSource Frame) :
    Tracks rowCap (P.readStores rowCap source) (P.fileStores rowCap source) :=
  P.tracks_foldMembers source.members P.tracks_scratch

variable {source : CaptureSource Frame}

theorem dialogs_read_eq_iff :
    (P.readStores rowCap source).dialogs.dialogs = (P.fileStores rowCap source).dialogs.dialogs ↔
      (P.fileStores rowCap source).dialogs.dialogs.length ≤ rowCap := by
  have htracks : Tracks rowCap _ _ := P.tracks_read source
  refine ⟨fun heq => ?_, htracks.same⟩
  rw [← heq]
  exact htracks.bound

/-! ## The loop over the files -/

section Loop

variable (control : ℕ → Asked) (input : SweepInput Frame Media)

/-- No limit and no stop comes before a file, and every file is read without an error. -/
def Uninterrupted (maxFiles : ℕ) : ℕ → ℕ → List (Candidate Frame) → Prop
  | _, _, [] => True
  | tick, examined, candidate :: rest =>
    examined < maxFiles ∧ (control tick).between = none ∧
      candidate.source.Reads control (tick + 1) ∧
      Uninterrupted maxFiles (tick + 1 + candidate.source.ticks) (examined + 1) rest

def allMatches (candidates : List (Candidate Frame)) : List FileMatch :=
  candidates.flatMap (fun c =>
    matchesOf input.filter c.filename (P.readStores input.rowCap c.source))

variable {candidates : List (Candidate Frame)} (st : SweepState)

theorem sweepLoop_of_uninterrupted
    (h : Uninterrupted control input.maxFiles st.tick st.examined candidates) :
    ∃ tick, P.sweepLoop control input candidates st =
      (⟨st.found ++ P.allMatches input candidates, st.unreadable,
        st.examined + candidates.length, tick⟩, none) := by
  induction candidates generalizing st with
  | nil =>
    refine ⟨st.tick, ?_⟩
    simp [sweepLoop, allMatches]
  | cons candidate rest ih =>
    obtain ⟨hfiles, hbetween, hreads, hrest⟩ := h
    obtain ⟨packets, hread⟩ := P.read_of_reads input.rowCap hreads
    obtain ⟨tick, hloop⟩ := ih { st with
      examined := st.examined + 1
      found := st.found ++ matchesOf input.filter candidate.filename
        (P.readStores input.rowCap candidate.source)
      tick := st.tick + 1 + candidate.source.ticks } hrest
    refine ⟨tick, ?_⟩
    rw [sweepLoop, if_neg (Nat.not_le.mpr hfiles), hbetween]
    simp only [hread]
    rw [hloop]
    have hexamined : st.examined + 1 + rest.length = st.examined + (rest.length + 1) := by omega
    simp only [allMatches, List.flatMap_cons, List.append_assoc, List.length_cons, hexamined]

theorem unreadable_sweepLoop (candidates : List (Candidate Frame)) (st : SweepState)
    (h : st.unreadable ≠ []) : (P.sweepLoop control input candidates st).1.unreadable ≠ [] := by
  induction candidates generalizing st with
  | nil => exact h
  | cons candidate rest ih =>
    rw [sweepLoop]
    split
    · exact h
    · split
      · exact h
      · dsimp only
        split
        · split
          · exact h
          · exact ih _ (by simp)
        · exact ih _ h

theorem sweepLoop_interrupted
    (h : ¬Uninterrupted control input.maxFiles st.tick st.examined candidates) :
    (P.sweepLoop control input candidates st).2 ≠ none ∨
      (P.sweepLoop control input candidates st).1.unreadable ≠ [] := by
  induction candidates generalizing st with
  | nil => exact absurd trivial h
  | cons candidate rest ih =>
    rw [sweepLoop]
    by_cases hfiles : input.maxFiles ≤ st.examined
    · rw [if_pos hfiles]
      exact .inl (some_ne_none _)
    rw [if_neg hfiles]
    cases hbetween : (control st.tick).between with
    | some reason => exact .inl (some_ne_none _)
    | none =>
      by_cases hreads : candidate.source.Reads control (st.tick + 1)
      · obtain ⟨packets, hread⟩ := P.read_of_reads input.rowCap hreads
        simp only [hread]
        exact ih _ (fun hrest => h ⟨Nat.not_le.mp hfiles, hbetween, hreads, hrest⟩)
      · obtain ⟨e, he⟩ := ne_none_iff_exists'.mp (P.read_error (P.scratch input.rowCap) hreads)
        simp only [he]
        split
        · exact .inl (some_ne_none _)
        · exact .inr (P.unreadable_sweepLoop control input rest _ (by simp))

theorem complete_iff : (P.sweepFiles control input).complete = true ↔
    Uninterrupted control input.maxFiles 0 0 input.candidates := by
  constructor
  · intro hcomplete
    by_contra hnot
    have hcomplete' : (P.sweepLoop control input input.candidates ⟨[], [], 0, 0⟩).2.isNone = true ∧
        (P.sweepLoop control input input.candidates ⟨[], [], 0, 0⟩).1.unreadable = [] ∧ _ :=
      of_decide_eq_true hcomplete
    rcases P.sweepLoop_interrupted control input ⟨[], [], 0, 0⟩ hnot with hstop | hfile
    · exact hstop (isNone_iff_eq_none.mp hcomplete'.1)
    · exact hfile hcomplete'.2.1
  · intro h
    obtain ⟨tick, hloop⟩ := P.sweepLoop_of_uninterrupted control input ⟨[], [], 0, 0⟩ h
    simp [sweepFiles, sweepOutcome, hloop]

theorem found_of_uninterrupted
    (h : Uninterrupted control input.maxFiles 0 0 input.candidates) :
    (P.sweepFiles control input).found = P.allMatches input input.candidates := by
  obtain ⟨tick, hloop⟩ := P.sweepLoop_of_uninterrupted control input ⟨[], [], 0, 0⟩ h
  simp [sweepFiles, sweepOutcome, hloop]

theorem selected_eq_nil_of_not_found {candidate : Candidate Frame}
    (hmem : candidate ∈ input.candidates)
    (hnot : candidate.filename ∉ (P.allMatches input input.candidates).map FileMatch.filename) :
    selectedDialogs input.filter (P.readStores input.rowCap candidate.source) = [] := by
  by_contra hselected
  set stores := P.readStores input.rowCap candidate.source
  set hits := selectedDialogs input.filter stores with hhits
  have hmatch : ⟨candidate.filename, hits.length, hits.head?.map SipDialog.callId⟩ ∈
      matchesOf input.filter candidate.filename stores := by
    unfold matchesOf
    rw [← hhits, if_pos (List.length_pos_iff.mpr hselected)]
    exact List.mem_singleton.mpr rfl
  have hall : _ ∈ P.allMatches input input.candidates :=
    List.mem_flatMap.mpr ⟨candidate, hmem, hmatch⟩
  exact hnot (List.mem_map.mpr ⟨_, hall, rfl⟩)

end Loop

/-! ## Honest sweeps -/

variable (control : ℕ → Asked) (input : SweepInput Frame Media)

/-- The file is there to its end, and no dialog of it is missing. -/
def FullyRead (rowCap : ℕ) (source : CaptureSource Frame) : Prop :=
  source.whole = true ∧
    (P.readStores rowCap source).dialogs.dialogs = (P.fileStores rowCap source).dialogs.dialogs

/-- A sweep that says it is complete has read every file in full, so that a file without a match
holds no dialog that the filter selects. -/
def Honest : Prop :=
  (P.sweepFiles control input).complete = true → ∀ candidate ∈ input.candidates,
    P.FullyRead input.rowCap candidate.source ∧
      (candidate.filename ∉ (P.sweepFiles control input).found.map FileMatch.filename →
        selectedDialogs input.filter (P.fileStores input.rowCap candidate.source) = [])

theorem selected_of_fullyRead {filter : DialogFilter Media} (h : P.FullyRead rowCap source) :
    selectedDialogs filter (P.readStores rowCap source) =
      selectedDialogs filter (P.fileStores rowCap source) := by
  unfold selectedDialogs
  rw [h.2, (P.tracks_read source).media]

/-- A sweep is honest exactly if no file that it reads is cut or holds more dialogs than its scratch
store. -/
theorem sweep_honest_iff : P.Honest control input ↔
    (Uninterrupted control input.maxFiles 0 0 input.candidates →
      ∀ candidate ∈ input.candidates, candidate.source.whole = true ∧
        (P.fileStores input.rowCap candidate.source).dialogs.dialogs.length ≤ input.rowCap) := by
  constructor
  · intro hhonest hquiet candidate hmem
    obtain ⟨⟨hwhole, hdialogs⟩, -⟩ :=
      hhonest ((P.complete_iff control input).mpr hquiet) candidate hmem
    exact ⟨hwhole, P.dialogs_read_eq_iff.mp hdialogs⟩
  · intro hfiles hcomplete candidate hmem
    have hquiet := (P.complete_iff control input).mp hcomplete
    obtain ⟨hwhole, hfits⟩ := hfiles hquiet candidate hmem
    have hread : P.FullyRead input.rowCap candidate.source :=
      ⟨hwhole, P.dialogs_read_eq_iff.mpr hfits⟩
    refine ⟨hread, fun hnot => ?_⟩
    rw [P.found_of_uninterrupted control input hquiet] at hnot
    rw [← P.selected_of_fullyRead hread]
    exact P.selected_eq_nil_of_not_found input hmem hnot

end Pipeline

/-! ## A cut file and a crowded one -/

def messagePipeline : Pipeline SipMessage Unit where
  env := .plain 10
  newMedia := fun _ => ()
  reopen := id
  messageOf := fun _ m => some m
  onMedia := fun media _ => media

def neverStopped : ℕ → Asked := fun _ => ⟨false, none, none⟩

def oneFileSweep (source : CaptureSource SipMessage) : SweepInput SipMessage Unit :=
  ⟨[⟨"calls.pcap", source⟩], fun d _ => d.callId = "b", 1, 10⟩

def twoCallFile (ending : CaptureEnd) : CaptureSource SipMessage :=
  .single (.capture (.ok ([SipMessage.plainRequest "a" 1 .invite "z1" "",
    SipMessage.plainRequest "b" 1 .invite "z2" ""], ending)))

/-- A file that ends in the middle of its first frame is swept completely, and so is one whose
second call, the one looked for, found no room. -/
theorem not_honest_cut_or_crowded :
    ¬messagePipeline.Honest neverStopped (oneFileSweep (.single (.capture (.ok ([], .cut))))) ∧
      ¬messagePipeline.Honest neverStopped (oneFileSweep (twoCallFile .eof)) := by
  constructor
  · intro h
    have hread := h (by decide) _ (List.mem_singleton.mpr rfl)
    exact absurd hread.1.1 (by decide)
  · intro h
    have hread := h (by decide +kernel) _ (List.mem_singleton.mpr rfl)
    exact absurd (hread.2 (by decide +kernel)) (by decide +kernel)

end Sipnab
