import Mathlib

/-!
# The container forwarder

Containers wait in a spool. The forwarder reads one, sends it to a store, and moves it by the
answer: to the delivered directory, to the failed directory with a record beside it, or not at all.
The move comes first and the check that the moved file is the one sent comes after it. A container
may be rewritten, and the process may end, between any two operations.
-/

namespace Sipnab.Vcon

open List

abbrev Name := List Char

abbrev Bytes := List UInt8

/-- A version of a container, with the identity that only this version has. -/
structure File where
  identity : ℕ
  bytes : Bytes
  deriving DecidableEq

def errorRecordSuffix : Name := ".error.json".toList

def isPending (name : Name) : Bool := name.head? ≠ some '.' ∧ ".json".toList <:+ name

inductive Verdict
  | delivered
  | refused
  | retry
  | replace
  | halt
  deriving DecidableEq

def classify (status : ℕ) (canReplace : Bool) (delivered : ℕ × ℕ) : Verdict :=
  if delivered.1 ≤ status ∧ status ≤ delivered.2 then .delivered
  else if status = 401 ∨ status = 403 then .halt
  else if status = 409 ∧ canReplace then .replace
  else if 400 ≤ status ∧ status ≤ 499 then .refused
  else .retry

structure ForwardSettings where
  /-- The statuses that count as delivered. -/
  delivered : ℕ × ℕ
  replaceUrl : Bool
  /-- Whether a container has the uuid that the replace URL is made of. -/
  replaceEndpoint : Bytes → Bool

inductive Dir
  | done
  | failed
  deriving DecidableEq

inductive Pc
  | idle
  | opened (name : Name) (before : ℕ)
  | posting (name : Name) (before : ℕ) (bytes : Bytes)
  | putting (name : Name) (before : ℕ) (bytes : Bytes)
  | settling (dir : Dir) (name : Name) (before : ℕ) (bytes : Bytes)
  | moved (dir : Dir) (name : Name) (before : ℕ)
  | returning (dir : Dir) (name : Name)
  | removing (dir : Dir) (name : Name)
  | recording (name : Name)
  deriving DecidableEq

/-- The three directories, and what the store has accepted and what was refused. -/
structure Forwarder where
  spool : Name → Option File
  dir : Dir → Name → Option File
  /-- The version that each container was last written with. -/
  newest : Name → Option File
  accepted : List Bytes
  refusals : List Bytes
  nextIdentity : ℕ
  pc : Pc

inductive Move
  /-- A container is written to the spool, as a new file or into the one that is there. -/
  | rewrite (name : Name) (bytes : Bytes) (inPlace : Bool)
  | crash
  | openFile (name : Name)
  | read (bytes : Bytes)
  | readFails
  | answered (status : ℕ)
  /-- There is no answer; the store may have taken the container. -/
  | unanswered (took : Bool)
  | rename (ok : Bool)
  | stat (ok : Bool)
  | link (ok : Bool)
  | remove (ok : Bool)
  | record (ok : Bool)
  deriving DecidableEq

namespace Forwarder

variable (settings : ForwardSettings)

def empty : Forwarder where
  spool _ := none
  dir _ _ := none
  newest _ := none
  accepted := []
  refusals := []
  nextIdentity := 0
  pc := .idle

def setDir (s : Forwarder) (dir : Dir) (name : Name) (file : Option File) : Forwarder :=
  { s with dir := Function.update s.dir dir (Function.update (s.dir dir) name file) }

/-- A file that is written in place changes under all of its names. -/
def rewriteLinks (s : Forwarder) (name : Name) (file : File) : Forwarder :=
  { s with dir := fun dir =>
      if s.spool name ≠ none ∧ s.dir dir name = s.spool name then
        Function.update (s.dir dir) name (some file)
      else s.dir dir }

def rewrite (s : Forwarder) (name : Name) (bytes : Bytes) (inPlace : Bool) : Forwarder :=
  let file := ⟨s.nextIdentity, bytes⟩
  let s' := if inPlace then s.rewriteLinks name file else s
  { s' with
    spool := Function.update s.spool name (some file)
    newest := Function.update s.newest name (some file)
    nextIdentity := s.nextIdentity + 1 }

def actOn (s : Forwarder) (name : Name) (before : ℕ) (bytes : Bytes) : Verdict → Forwarder
  | .delivered => { s with accepted := bytes :: s.accepted, pc := .settling .done name before bytes }
  | .retry => { s with pc := .idle }
  | .halt => { s with pc := .idle }
  | .refused | .replace =>
    { s with refusals := bytes :: s.refusals, pc := .settling .failed name before bytes }

/-- The store holds the uuid already: put the container to the replace URL, if there is one. -/
def replace (s : Forwarder) (name : Name) (before : ℕ) (bytes : Bytes) : Forwarder :=
  if settings.replaceUrl ∧ settings.replaceEndpoint bytes then
    { s with pc := .putting name before bytes }
  else { s with refusals := bytes :: s.refusals, pc := .settling .failed name before bytes }

/-- One operation, of the forwarder or around it; none if it is not the next. -/
def step (s : Forwarder) : Move → Option Forwarder
  | .rewrite name bytes inPlace => some (s.rewrite name bytes inPlace)
  | .crash => some { s with pc := .idle }
  | .openFile name =>
    match s.pc, s.spool name with
    | .idle, some file =>
      if isPending name then some { s with pc := .opened name file.identity } else none
    | _, _ => none
  | .read bytes =>
    match s.pc with
    | .opened name before =>
      -- what is read of a file that was written into meanwhile may be anything
      if ∀ file, s.spool name = some file → file.identity = before → bytes = file.bytes then
        some { s with pc := .posting name before bytes }
      else none
    | _ => none
  | .readFails =>
    match s.pc with
    | .opened _ _ => some { s with pc := .idle }
    | _ => none
  | .answered status =>
    match s.pc with
    | .posting name before bytes =>
      match classify status settings.replaceUrl settings.delivered with
      | .replace => some (s.replace settings name before bytes)
      | verdict => some (s.actOn name before bytes verdict)
    | .putting name before bytes =>
      some (s.actOn name before bytes (classify status false settings.delivered))
    | _ => none
  | .unanswered took =>
    match s.pc with
    | .posting _ _ bytes | .putting _ _ bytes =>
      some { s with accepted := if took then bytes :: s.accepted else s.accepted, pc := .idle }
    | _ => none
  | .rename ok =>
    match s.pc with
    | .settling dir name before _ =>
      match ok, s.spool name with
      | true, some file =>
        some { s.setDir dir name (some file) with
          spool := Function.update s.spool name none
          pc := .moved dir name before }
      | _, _ => some { s with pc := .idle }
    | _ => none
  | .stat ok =>
    match s.pc with
    | .moved dir name before =>
      if ok ∧ (s.dir dir name).map File.identity = some before then
        some { s with pc := if dir = .failed then .recording name else .idle }
      else some { s with pc := .returning dir name }
    | _ => none
  | .link ok =>
    match s.pc with
    | .returning dir name =>
      match s.spool name with
      | some _ => some { s with pc := .removing dir name }
      | none =>
        if ok then some { s with
          spool := Function.update s.spool name (s.dir dir name)
          pc := .removing dir name }
        else some { s with pc := .idle }
    | _ => none
  | .remove ok =>
    match s.pc with
    | .removing dir name =>
      some { (if ok then s.setDir dir name none else s) with pc := .idle }
    | _ => none
  | .record ok =>
    match s.pc with
    | .recording name =>
      let s' := if ok then
        s.setDir .failed (name ++ errorRecordSuffix) (some ⟨s.nextIdentity, []⟩) else s
      some { s' with nextIdentity := s.nextIdentity + 1, pc := .idle }
    | _ => none

/-! ## Delivered, refused or waiting -/

/-- Only what the store accepted is in the delivered directory; the newest version of a container
waits in the spool, or is in the failed directory and was refused, until the store accepts it. -/
structure Safe (s : Forwarder) : Prop where
  delivered : ∀ name file, s.dir .done name = some file → file.bytes ∈ s.accepted
  kept : ∀ name file, s.newest name = some file → file.bytes ∈ s.accepted ∨
    s.spool name = some file ∨ s.dir .failed name = some file ∧ file.bytes ∈ s.refusals

/-- A container is not rewritten between its read and its move, nor written into while it is also
delivered, and none has the name of a record. -/
def Undisturbed (s : Forwarder) : Move → Prop
  | .rewrite name _ inPlace => ¬ errorRecordSuffix <:+ name ∧
      (inPlace = true → s.spool name = none ∨ s.dir .done name ≠ s.spool name)
  | .rename _ =>
    match s.pc with
    | .settling _ name before _ => ∀ file, s.spool name = some file → file.identity = before
    | _ => True
  | _ => True

/-- The states that the moves which meet a condition lead to. -/
inductive Reached (ok : Forwarder → Move → Prop) : Forwarder → Prop
  | start : Reached ok empty
  | move {s s' : Forwarder} (m : Move) : Reached ok s → ok s m → s.step settings m = some s' →
    Reached ok s'

/-- What was read is what the file still holds, if nothing was written since. -/
def Read (s : Forwarder) (name : Name) (before : ℕ) (bytes : Bytes) : Prop :=
  before < s.nextIdentity ∧
    ∀ file, s.spool name = some file → file.identity = before → bytes = file.bytes

def At (s : Forwarder) : Pc → Prop
  | .idle | .recording _ => True
  | .opened _ before => before < s.nextIdentity
  | .posting name before bytes | .putting name before bytes => s.Read name before bytes
  | .settling dir name before bytes => s.Read name before bytes ∧
      bytes ∈ (if dir = .done then s.accepted else s.refusals)
  | .moved dir name _ | .returning dir name => ∃ file, s.dir dir name = some file ∧
      (s.spool name = none → s.newest name = some file)
  | .removing _ name => s.spool name ≠ none

structure Inv (s : Forwarder) : Prop where
  safe : s.Safe
  fresh : ∀ name file, s.newest name = some file → file.identity < s.nextIdentity
  current : ∀ name file, s.spool name = some file → s.newest name = some file
  named : ∀ name file, s.newest name = some file → ¬ errorRecordSuffix <:+ name
  at_pc : s.At s.pc

variable {settings} {s s' : Forwarder}

theorem inv_empty : empty.Inv where
  safe := ⟨fun _ _ h => (by cases h), fun _ _ h => (by cases h)⟩
  fresh _ _ h := by cases h
  current _ _ h := by cases h
  named _ _ h := by cases h
  at_pc := trivial

theorem Inv.goTo (h : s.Inv) {accepted refusals : List Bytes} {pc : Pc}
    (haccepted : s.accepted ⊆ accepted) (hrefusals : s.refusals ⊆ refusals)
    (hpc : { s with accepted := accepted, refusals := refusals, pc := pc }.At pc) :
    { s with accepted := accepted, refusals := refusals, pc := pc }.Inv where
  safe := by
    refine ⟨fun name file hfile => haccepted (h.safe.delivered name file hfile),
      fun name file hfile => ?_⟩
    rcases h.safe.kept name file hfile with hacc | hspool | ⟨hfailed, href⟩
    · exact .inl (haccepted hacc)
    · exact .inr (.inl hspool)
    · exact .inr (.inr ⟨hfailed, hrefusals href⟩)
  fresh := h.fresh
  current := h.current
  named := h.named
  at_pc := hpc

theorem dir_rewrite (dir : Dir) (name name' : Name) (bytes : Bytes) (inPlace : Bool) :
    (s.rewrite name bytes inPlace).dir dir name' =
      if inPlace = true ∧ name' = name ∧ s.spool name ≠ none ∧ s.dir dir name = s.spool name then
        some ⟨s.nextIdentity, bytes⟩
      else s.dir dir name' := by
  cases inPlace with
  | false => rfl
  | true =>
    change (if s.spool name ≠ none ∧ s.dir dir name = s.spool name then
      Function.update (s.dir dir) name (some ⟨s.nextIdentity, bytes⟩) else s.dir dir) name' = _
    by_cases hlinked : s.spool name ≠ none ∧ s.dir dir name = s.spool name
    · rw [if_pos hlinked]
      by_cases hname : name' = name
      · subst hname
        rw [Function.update_self, if_pos ⟨rfl, rfl, hlinked⟩]
      · rw [Function.update_of_ne hname, if_neg (fun h => hname h.2.1)]
    · rw [if_neg hlinked, if_neg (fun h => hlinked h.2.2)]

theorem At.rewrite {pc : Pc} (h : s.At pc) (name : Name) (bytes : Bytes) (inPlace : Bool) :
    (s.rewrite name bytes inPlace).At pc := by
  have hread : ∀ name' before bytes', s.Read name' before bytes' →
      (s.rewrite name bytes inPlace).Read name' before bytes' := by
    intro name' before bytes' hread
    refine ⟨Nat.lt_succ_of_lt hread.1, fun file hfile hid => ?_⟩
    change Function.update s.spool name _ name' = some file at hfile
    by_cases hname : name' = name
    · subst hname
      rw [Function.update_self] at hfile
      cases hfile
      exact absurd hid (Nat.ne_of_gt hread.1)
    · rw [Function.update_of_ne hname] at hfile
      exact hread.2 file hfile hid
  have hspool : ∀ name', s.spool name' ≠ none →
      (s.rewrite name bytes inPlace).spool name' ≠ none := by
    intro name' hsome
    change Function.update s.spool name _ name' ≠ none
    by_cases hname : name' = name
    · subst hname
      simp
    · rwa [Function.update_of_ne hname]
  have hmoved : ∀ dir name', (∃ file, s.dir dir name' = some file ∧
      (s.spool name' = none → s.newest name' = some file)) →
      ∃ file, (s.rewrite name bytes inPlace).dir dir name' = some file ∧
        ((s.rewrite name bytes inPlace).spool name' = none →
          (s.rewrite name bytes inPlace).newest name' = some file) := by
    rintro dir name' ⟨file, hfile, hnewest⟩
    rw [dir_rewrite]
    by_cases hname : name' = name
    · have hthere : (s.rewrite name bytes inPlace).spool name' ≠ none := by
        change Function.update s.spool name _ name' ≠ none
        rw [hname, Function.update_self]
        exact Option.some_ne_none _
      split_ifs
      · exact ⟨_, rfl, fun hnone => absurd hnone hthere⟩
      · exact ⟨file, hfile, fun hnone => absurd hnone hthere⟩
    · rw [if_neg (fun h => hname h.2.1)]
      refine ⟨file, hfile, fun hnone => ?_⟩
      change Function.update s.spool name _ name' = none at hnone
      change Function.update s.newest name _ name' = some file
      rw [Function.update_of_ne hname] at hnone ⊢
      exact hnewest hnone
  cases pc with
  | idle => trivial
  | recording name' => trivial
  | opened name' before => exact Nat.lt_succ_of_lt h
  | posting name' before bytes' => exact hread _ _ _ h
  | putting name' before bytes' => exact hread _ _ _ h
  | settling dir name' before bytes' =>
    refine ⟨hread _ _ _ h.1, ?_⟩
    cases inPlace with
    | true => exact h.2
    | false => exact h.2
  | moved dir name' before => exact hmoved dir name' h
  | returning dir name' => exact hmoved dir name' h
  | removing dir name' => exact hspool name' h

variable {dir : Dir} {name : Name} {bytes : Bytes} {before : ℕ}

theorem Inv.rewrite (h : s.Inv) {inPlace : Bool}
    (hok : s.Undisturbed (.rewrite name bytes inPlace)) : (s.rewrite name bytes inPlace).Inv := by
  have haccepted : (s.rewrite name bytes inPlace).accepted = s.accepted := by
    cases inPlace with
    | true => rfl
    | false => rfl
  have hrefusals : (s.rewrite name bytes inPlace).refusals = s.refusals := by
    cases inPlace with
    | true => rfl
    | false => rfl
  have hpc : (s.rewrite name bytes inPlace).pc = s.pc := by
    cases inPlace with
    | true => rfl
    | false => rfl
  refine ⟨⟨fun name' file hfile => ?_, fun name' file hfile => ?_⟩, fun name' file hfile => ?_,
    fun name' file hfile => ?_, fun name' file hfile => ?_, hpc ▸ h.at_pc.rewrite name bytes inPlace⟩
  · rw [haccepted]
    rw [dir_rewrite] at hfile
    split_ifs at hfile with hlinked
    · rcases hok.2 hlinked.1 with hnone | hapart
      · exact absurd hnone hlinked.2.2.1
      · exact absurd hlinked.2.2.2 hapart
    · exact h.safe.delivered name' file hfile
  · rw [haccepted, hrefusals]
    change Function.update s.newest name _ name' = some file at hfile
    change _ ∨ Function.update s.spool name _ name' = some file ∨ _
    by_cases hname : name' = name
    · subst hname
      rw [Function.update_self] at hfile ⊢
      exact .inr (.inl hfile)
    · rw [Function.update_of_ne hname] at hfile ⊢
      rw [dir_rewrite, if_neg (fun h => hname h.2.1)]
      exact h.safe.kept name' file hfile
  · change Function.update s.newest name _ name' = some file at hfile
    by_cases hname : name' = name
    · subst hname
      rw [Function.update_self] at hfile
      cases hfile
      exact Nat.lt_succ_self _
    · rw [Function.update_of_ne hname] at hfile
      exact Nat.lt_succ_of_lt (h.fresh name' file hfile)
  · change Function.update s.spool name _ name' = some file at hfile
    change Function.update s.newest name _ name' = some file
    by_cases hname : name' = name
    · subst hname
      rw [Function.update_self] at hfile ⊢
      exact hfile
    · rw [Function.update_of_ne hname] at hfile ⊢
      exact h.current name' file hfile
  · change Function.update s.newest name _ name' = some file at hfile
    by_cases hname : name' = name
    · rw [hname]
      exact hok.1
    · rw [Function.update_of_ne hname] at hfile
      exact h.named name' file hfile

theorem dir_setDir (dir dir' : Dir) (name name' : Name) (file : Option File) :
    (s.setDir dir name file).dir dir' name' =
      if dir' = dir ∧ name' = name then file else s.dir dir' name' := by
  unfold setDir
  by_cases hdir : dir' = dir
  · subst hdir
    by_cases hname : name' = name
    · subst hname
      simp
    · simp [hname]
  · simp [hdir]

section

variable (h : s.Inv)
include h

theorem Inv.moveOut {file : File} (hpc : s.pc = .settling dir name before bytes)
    (hfile : s.spool name = some file) (hid : file.identity = before) :
    { s.setDir dir name (some file) with
      spool := Function.update s.spool name none
      pc := .moved dir name before }.Inv := by
  have hat := h.at_pc
  rw [hpc] at hat
  have hbytes : bytes = file.bytes := hat.1.2 file hfile hid
  refine ⟨⟨fun name' file' hfile' => ?_, fun name' file' hfile' => ?_⟩, h.fresh,
    fun name' file' hfile' => ?_, h.named, ?_⟩
  · change (s.setDir dir name (some file)).dir .done name' = some file' at hfile'
    change _ ∈ s.accepted
    rw [dir_setDir] at hfile'
    split_ifs at hfile' with hthere
    · cases hfile'
      have hmem := hat.2
      rw [if_pos hthere.1.symm] at hmem
      rwa [← hbytes]
    · exact h.safe.delivered name' file' hfile'
  · change _ ∈ s.accepted ∨ Function.update s.spool name none name' = some file' ∨
      (s.setDir dir name (some file)).dir .failed name' = some file' ∧ _ ∈ s.refusals
    by_cases hname : name' = name
    · subst hname
      obtain rfl : file = file' := Option.some.inj ((h.current _ _ hfile).symm.trans hfile')
      have hmem := hat.2
      cases dir with
      | done => exact .inl (hbytes ▸ hmem)
      | failed =>
        refine .inr (.inr ⟨?_, hbytes ▸ hmem⟩)
        rw [dir_setDir, if_pos ⟨rfl, rfl⟩]
    · rw [Function.update_of_ne hname, dir_setDir, if_neg (fun h => hname h.2)]
      exact h.safe.kept name' file' hfile'
  · change Function.update s.spool name none name' = some file' at hfile'
    by_cases hname : name' = name
    · subst hname
      rw [Function.update_self] at hfile'
      cases hfile'
    · rw [Function.update_of_ne hname] at hfile'
      exact h.current name' file' hfile'
  · refine ⟨file, ?_, fun _ => h.current name file hfile⟩
    change (s.setDir dir name (some file)).dir dir name = some file
    rw [dir_setDir, if_pos ⟨rfl, rfl⟩]

theorem Inv.linkBack (hpc : s.pc = .returning dir name) (hnone : s.spool name = none) :
    { s with spool := Function.update s.spool name (s.dir dir name), pc := .removing dir name }.Inv
    := by
  have hat := h.at_pc
  rw [hpc] at hat
  obtain ⟨file, hfile, hnewest⟩ := hat
  have hnewest := hnewest hnone
  refine ⟨⟨h.safe.delivered, fun name' file' hfile' => ?_⟩, h.fresh,
    fun name' file' hfile' => ?_, h.named, ?_⟩
  · change _ ∨ Function.update s.spool name (s.dir dir name) name' = some file' ∨ _
    by_cases hname : name' = name
    · subst hname
      rw [Function.update_self, hfile]
      exact .inr (.inl (hnewest.symm.trans hfile'))
    · rw [Function.update_of_ne hname]
      exact h.safe.kept name' file' hfile'
  · change Function.update s.spool name (s.dir dir name) name' = some file' at hfile'
    by_cases hname : name' = name
    · subst hname
      rw [Function.update_self, hfile] at hfile'
      cases hfile'
      exact hnewest
    · rw [Function.update_of_ne hname] at hfile'
      exact h.current name' file' hfile'
  · change Function.update s.spool name (s.dir dir name) name ≠ none
    rw [Function.update_self, hfile]
    exact Option.some_ne_none _

theorem Inv.takeOut (hpc : s.pc = .removing dir name) :
    { s.setDir dir name none with pc := .idle }.Inv := by
  have hthere : s.spool name ≠ none := by
    have hat := h.at_pc
    rwa [hpc] at hat
  refine ⟨⟨fun name' file' hfile' => ?_, fun name' file' hfile' => ?_⟩, h.fresh, h.current, h.named,
    trivial⟩
  · change (s.setDir dir name none).dir .done name' = some file' at hfile'
    rw [dir_setDir] at hfile'
    split_ifs at hfile'
    exact h.safe.delivered name' file' hfile'
  · change _ ∨ _ ∨ (s.setDir dir name none).dir .failed name' = some file' ∧ _
    by_cases hname : name' = name
    · subst hname
      obtain ⟨file, hfile⟩ := Option.ne_none_iff_exists'.mp hthere
      obtain rfl : file = file' := Option.some.inj ((h.current _ _ hfile).symm.trans hfile')
      exact .inr (.inl hfile)
    · rw [dir_setDir, if_neg (fun h => hname h.2)]
      exact h.safe.kept name' file' hfile'

theorem Inv.writeRecord (name : Name) (ok : Bool) :
    { (if ok then s.setDir .failed (name ++ errorRecordSuffix) (some ⟨s.nextIdentity, []⟩) else s)
      with nextIdentity := s.nextIdentity + 1, pc := .idle }.Inv := by
  have hfresh : ∀ name' file, s.newest name' = some file → file.identity < s.nextIdentity + 1 :=
    fun name' file hfile => Nat.lt_succ_of_lt (h.fresh name' file hfile)
  cases ok with
  | false => exact ⟨⟨h.safe.delivered, h.safe.kept⟩, hfresh, h.current, h.named, trivial⟩
  | true =>
    refine ⟨⟨fun name' file' hfile' => ?_, fun name' file' hfile' => ?_⟩, hfresh, h.current,
      h.named, trivial⟩
    · change (s.setDir .failed (name ++ errorRecordSuffix) (some ⟨s.nextIdentity, []⟩)).dir
        .done name' = some file' at hfile'
      rw [dir_setDir, if_neg (fun h => by cases h.1)] at hfile'
      exact h.safe.delivered name' file' hfile'
    · change file'.bytes ∈ s.accepted ∨ s.spool name' = some file' ∨
        (s.setDir .failed (name ++ errorRecordSuffix) (some ⟨s.nextIdentity, []⟩)).dir
          .failed name' = some file' ∧ file'.bytes ∈ s.refusals
      rw [dir_setDir, if_neg]
      · exact h.safe.kept name' file' hfile'
      · rintro ⟨-, rfl⟩
        exact h.named _ file' hfile' (suffix_append _ _)

theorem Inv.actOn (hread : s.Read name before bytes) (verdict : Verdict) :
    (s.actOn name before bytes verdict).Inv := by
  cases verdict with
  | delivered =>
    exact h.goTo (subset_cons_self _ _) (List.Subset.refl _) ⟨hread, mem_cons_self⟩
  | retry => exact h.goTo (List.Subset.refl _) (List.Subset.refl _) trivial
  | halt => exact h.goTo (List.Subset.refl _) (List.Subset.refl _) trivial
  | refused =>
    exact h.goTo (List.Subset.refl _) (subset_cons_self _ _) ⟨hread, mem_cons_self⟩
  | replace =>
    exact h.goTo (List.Subset.refl _) (subset_cons_self _ _) ⟨hread, mem_cons_self⟩

theorem Inv.replace (hread : s.Read name before bytes) :
    (s.replace settings name before bytes).Inv := by
  unfold Forwarder.replace
  split_ifs
  · exact h.goTo (List.Subset.refl _) (List.Subset.refl _) hread
  · exact h.goTo (List.Subset.refl _) (subset_cons_self _ _) ⟨hread, mem_cons_self⟩

theorem Inv.answered {status : ℕ} (hstep : s.step settings (.answered status) = some s') :
    s'.Inv := by
  have hat := h.at_pc
  unfold step at hstep
  dsimp only at hstep
  split at hstep
  · rename_i name before bytes hpc
    rw [hpc] at hat
    split at hstep
    · cases hstep
      exact h.replace hat
    · cases hstep
      exact h.actOn hat _
  · rename_i name before bytes hpc
    rw [hpc] at hat
    cases hstep
    exact h.actOn hat _
  · cases hstep

theorem Inv.unanswered {took : Bool} (hstep : s.step settings (.unanswered took) = some s') :
    s'.Inv := by
  have hsub : ∀ bytes, s.accepted ⊆ (if took = true then bytes :: s.accepted else s.accepted) := by
    intro bytes
    split_ifs
    · exact subset_cons_self _ _
    · exact List.Subset.refl _
  unfold step at hstep
  dsimp only at hstep
  split at hstep
  · cases hstep
    exact h.goTo (hsub _) (List.Subset.refl _) trivial
  · cases hstep
    exact h.goTo (hsub _) (List.Subset.refl _) trivial
  · cases hstep

theorem Inv.step {m : Move} (hok : s.Undisturbed m) (hstep : s.step settings m = some s') :
    s'.Inv := by
  have hat := h.at_pc
  have hstay : ∀ pc, { s with pc := pc }.At pc → { s with pc := pc }.Inv :=
    fun pc hpc => h.goTo (List.Subset.refl _) (List.Subset.refl _) hpc
  cases m with
  | rewrite name bytes inPlace =>
    cases hstep
    exact h.rewrite hok
  | crash =>
    cases hstep
    exact hstay .idle trivial
  | openFile name =>
    unfold Forwarder.step at hstep
    dsimp only at hstep
    split at hstep
    · rename_i file _ hfile
      split_ifs at hstep
      cases hstep
      exact hstay _ (h.fresh name file (h.current name file hfile))
    · cases hstep
  | read bytes =>
    unfold Forwarder.step at hstep
    dsimp only at hstep
    split at hstep
    · rename_i name before hpc
      rw [hpc] at hat
      split_ifs at hstep with hbytes
      cases hstep
      exact hstay _ ⟨hat, hbytes⟩
    · cases hstep
  | readFails =>
    unfold Forwarder.step at hstep
    dsimp only at hstep
    split at hstep
    · cases hstep
      exact hstay .idle trivial
    · cases hstep
  | answered status => exact h.answered hstep
  | unanswered took => exact h.unanswered hstep
  | rename ok =>
    unfold Forwarder.step at hstep
    dsimp only at hstep
    split at hstep
    · rename_i dir name before bytes hpc
      unfold Undisturbed at hok
      rw [hpc] at hok
      split at hstep
      · rename_i file hfile
        cases hstep
        exact h.moveOut hpc hfile (hok file hfile)
      · cases hstep
        exact hstay .idle trivial
    · cases hstep
  | stat ok =>
    unfold Forwarder.step at hstep
    dsimp only at hstep
    split at hstep
    · rename_i dir name before hpc
      rw [hpc] at hat
      split_ifs at hstep
      · cases hstep
        exact hstay _ trivial
      · cases hstep
        exact hstay _ trivial
      · cases hstep
        exact hstay _ hat
    · cases hstep
  | link ok =>
    unfold Forwarder.step at hstep
    dsimp only at hstep
    split at hstep
    · rename_i dir name hpc
      split at hstep
      · rename_i file hfile
        cases hstep
        refine hstay _ ?_
        change s.spool name ≠ none
        rw [hfile]
        exact Option.some_ne_none _
      · rename_i hnone
        split_ifs at hstep
        · cases hstep
          exact h.linkBack hpc hnone
        · cases hstep
          exact hstay .idle trivial
    · cases hstep
  | remove ok =>
    unfold Forwarder.step at hstep
    dsimp only at hstep
    split at hstep
    · rename_i dir name hpc
      cases ok with
      | true =>
        cases hstep
        exact h.takeOut hpc
      | false =>
        cases hstep
        exact hstay .idle trivial
    · cases hstep
  | record ok =>
    unfold Forwarder.step at hstep
    dsimp only at hstep
    split at hstep
    · rename_i name hpc
      cases hstep
      exact h.writeRecord name ok
    · cases hstep

end

/-- In every run whose rewrites do not come between a read and its move, every version is delivered,
refused or still in the spool, whatever fails and wherever the process ends. -/
theorem forward_safe (h : Reached settings Undisturbed s) : s.Safe := by
  have hinv : s.Inv := by
    induction h with
    | start => exact inv_empty
    | move m _ hok hstep ih => exact ih.step hok hstep
  exact hinv.safe

def steps (settings : ForwardSettings) (s : Forwarder) : List Move → Option Forwarder
  | [] => some s
  | m :: rest => (s.step settings m).bind (fun s' => steps settings s' rest)

def plainSettings : ForwardSettings := ⟨(200, 299), false, fun _ => true⟩

/-- A container is written, sent and moved. -/
theorem forward_safe_delivered :
    ∃ s, Reached plainSettings Undisturbed s ∧
      s.dir .done "a.json".toList = some ⟨0, [1]⟩ ∧ s.Safe := by
  have hwritten : Reached plainSettings Undisturbed _ :=
    .move (.rewrite "a.json".toList [1] false) .start ⟨by decide, by decide⟩ rfl
  have hread := ((hwritten.move (.openFile "a.json".toList) trivial rfl).move (.read [1]) trivial
    rfl).move (.answered 200) trivial rfl
  have hmoved := hread.move (.rename true) (fun file hfile => by cases hfile; rfl) rfl
  exact ⟨_, hmoved, by decide, forward_safe hmoved⟩

/-- The store accepts the first version; a second is written before the first is moved, and the
process ends behind the move. The second, that was never sent, has left the spool. -/
theorem forward_unsafe_rewritten :
    ∃ s, steps plainSettings empty [.rewrite "a.json".toList [1] false, .openFile "a.json".toList,
        .read [1], .answered 200, .rewrite "a.json".toList [2] false, .rename true, .crash] =
          some s ∧
      s.dir .done "a.json".toList = some ⟨1, [2]⟩ ∧ s.spool "a.json".toList = none ∧ ¬ s.Safe := by
  refine ⟨_, rfl, by decide, by decide, fun hsafe => ?_⟩
  have hmem := hsafe.delivered "a.json".toList ⟨1, [2]⟩ (by decide)
  exact absurd hmem (by decide)

end Forwarder

end Sipnab.Vcon
