import Sipnab.Security.Fraud
import Sipnab.Sip.DialogStore

/-!
# Calls, not packets

What the three counts are about: a call is placed once, by its first INVITE, and ends once. The
detector counts the same as long as no INVITE of a call comes again and no message of a finished
call comes after its memory.
-/

namespace Sipnab

open List IndexMap

/-- A message as the detector gets it, with the dialog it belongs to. -/
structure CheckedMessage where
  message : SipMessage
  dialog : SipDialog

namespace CheckedMessage

def time (s : CheckedMessage) : DateTime := s.message.timestamp

def callId (s : CheckedMessage) : String := s.dialog.callId

def sources (t : FraudThresholds) (s : CheckedMessage) : List IpAddr :=
  if s.dialog.endedShort t ∨ s.dialog.endedRefused then [s.dialog.srcAddr]
  else if s.message.isInvite then [s.message.srcAddr]
  else []

end CheckedMessage

structure Placement where
  src : IpAddr
  callId : String
  time : DateTime
  deriving DecidableEq

namespace Placement

def note (placed : List Placement) (s : CheckedMessage) : List Placement :=
  if s.message.isInvite ∧ s.callId ∉ placed.map callId then
    placed ++ [⟨s.message.srcAddr, s.callId, s.time⟩]
  else placed

end Placement

def placements (steps : List CheckedMessage) : List Placement := steps.foldl Placement.note []

/-- The distinct calls that a source placed inside a window that ends now. -/
def callsPlaced (steps : List CheckedMessage) (src : IpAddr) (window : ℤ) (now : DateTime) : ℕ :=
  ((placements steps).filter (fun p => p.src = src ∧ now - p.time < window)).length

theorem placements_append (steps : List CheckedMessage) (s : CheckedMessage) :
    placements (steps ++ [s]) = Placement.note (placements steps) s := by
  simp [placements, foldl_append]

variable {steps : List CheckedMessage}

theorem invite_of_mem_placements {p : Placement} (h : p ∈ placements steps) :
    ∃ s ∈ steps, s.message.isInvite ∧ s.callId = p.callId := by
  induction steps using List.reverseRecOn with
  | nil => simp [placements] at h
  | append_singleton steps s ih =>
    rw [placements_append, Placement.note] at h
    have hearlier : p ∈ placements steps →
        ∃ s' ∈ steps ++ [s], s'.message.isInvite ∧ s'.callId = p.callId := by
      intro hp
      obtain ⟨s', hs', hcall⟩ := ih hp
      exact ⟨s', mem_append_left _ hs', hcall⟩
    split_ifs at h with hnew
    · rcases mem_append.mp h with hp | hp
      · exact hearlier hp
      · obtain rfl := mem_singleton.mp hp
        exact ⟨s, by simp, hnew.1, rfl⟩
    · exact hearlier h

/-! ## The memory of finished calls -/

namespace CallMemory

variable {memory : CallMemory} {window : ℤ} {now : DateTime} {callId destination id : String}
  {e : DateTime × String}

theorem get?_retain (h : memory.get? id = some e) (hyoung : now - e.1 < window) :
    (memory.retain window now).get? id = some e := by
  rw [get?_eq_some_iff] at h ⊢
  exact mem_filter.mpr ⟨h, by simpa using hyoung⟩

theorem mem_keys_retain (h : memory.get? id = some e) (hyoung : now - e.1 < window) :
    id ∈ (memory.retain window now).keys :=
  mem_keys_of_mem_entries (IndexMap.get?_eq_some_iff.mp (get?_retain h hyoung))

theorem get?_note (h : memory.get? id = some e) (hyoung : now - e.1 < window) :
    (memory.note window now callId destination).1.get? id = some e := by
  have hkept := get?_retain h hyoung
  simp only [note]
  split_ifs with hmem hfull
  · exact hkept
  · exact hkept
  · have hne : id ≠ callId := by
      rintro rfl
      exact hmem (mem_keys_retain h hyoung)
    simp [get?_insert, hne, hkept]

theorem not_added (h : memory.get? callId = some e) (hyoung : now - e.1 < window) :
    (memory.note window now callId destination).2 = false := by
  simp [note, mem_keys_retain h hyoung]

theorem get?_note_added (h : (memory.note window now callId destination).2 = true) :
    (memory.note window now callId destination).1.get? callId = some (now, destination) := by
  simp only [note] at h ⊢
  split_ifs at h ⊢ with hmem hfull
  simp [get?_insert]

end CallMemory

def Latest (steps : List CheckedMessage) (now : DateTime) : Prop := ∀ s ∈ steps, s.time ≤ now

theorem Latest.init {s : CheckedMessage} {now : DateTime} (h : Latest (steps ++ [s]) now) :
    Latest steps now :=
  fun a ha => h a (mem_append_left _ ha)

theorem Latest.last {steps : List CheckedMessage} {s : CheckedMessage} {now : DateTime}
    (h : Latest (steps ++ [s]) now) : s.time ≤ now := h s (by simp)

/-- The calls counted so far are distinct, and each is remembered until the window has passed. -/
structure Remembers (window : ℤ) (ended : SipDialog → Bool) (memory : IpAddr → CallMemory)
    (steps : List CheckedMessage) (counted : List String) : Prop where
  nodup : counted.Nodup
  held : ∀ id ∈ counted, ∃ s ∈ steps, ended s.dialog ∧ s.callId = id ∧
    ∀ now, Latest steps now → now - s.time < window →
      ∃ destination, (memory s.dialog.srcAddr).get? id = some (s.time, destination)

namespace Remembers

variable {window : ℤ} {ended : SipDialog → Bool} {memory memory' : IpAddr → CallMemory}
  {steps : List CheckedMessage} {counted : List String} {s : CheckedMessage}

def Keeps (window : ℤ) (now : DateTime) (memory memory' : IpAddr → CallMemory) : Prop :=
  ∀ ip id e, (memory ip).get? id = some e → now - e.1 < window → (memory' ip).get? id = some e

theorem held_keep (h : Remembers window ended memory steps counted)
    (hkeep : Keeps window s.time memory memory') :
    ∀ id ∈ counted, ∃ a ∈ steps ++ [s], ended a.dialog ∧ a.callId = id ∧
      ∀ now, Latest (steps ++ [s]) now → now - a.time < window →
        ∃ destination, (memory' a.dialog.srcAddr).get? id = some (a.time, destination) := by
  intro id hid
  obtain ⟨a, ha, hended, hcall, hmem⟩ := h.held id hid
  refine ⟨a, mem_append_left _ ha, hended, hcall, ?_⟩
  intro now hnow hyoung
  obtain ⟨destination, hget⟩ := hmem now hnow.init hyoung
  have hyoung' : s.time - a.time < window :=
    Int.lt_of_le_of_lt (Int.sub_le_sub_right hnow.last _) hyoung
  exact ⟨destination, hkeep _ _ _ hget hyoung'⟩

theorem keep (h : Remembers window ended memory steps counted)
    (hkeep : Keeps window s.time memory memory') :
    Remembers window ended memory' (steps ++ [s]) counted :=
  ⟨h.nodup, h.held_keep hkeep⟩

variable {destination : String}

/-- A message that counts its call finds it uncounted: every earlier one of that call was in the
window. -/
theorem add (h : Remembers window ended memory steps counted) (hended : ended s.dialog)
    (hlatest : Latest steps s.time) (hin : ∀ a ∈ steps, ended a.dialog → a.callId = s.callId →
      s.dialog.srcAddr = a.dialog.srcAddr ∧ s.time - a.time < window)
    (hkeep : Keeps window s.time memory memory')
    (hadded : ((memory s.dialog.srcAddr).note window s.time s.callId destination).2 = true)
    (hget : (memory' s.dialog.srcAddr).get? s.callId = some (s.time, destination)) :
    Remembers window ended memory' (steps ++ [s]) (counted ++ [s.callId]) := by
  have hfresh : s.callId ∉ counted := by
    intro hmem
    obtain ⟨a, ha, haended, hcall, hheld⟩ := h.held _ hmem
    obtain ⟨hsrc, hyoung⟩ := hin a ha haended hcall
    obtain ⟨_, hentry⟩ := hheld s.time hlatest hyoung
    rw [← hsrc] at hentry
    rw [CallMemory.not_added hentry hyoung] at hadded
    exact Bool.false_ne_true hadded
  constructor
  · rw [nodup_append]
    refine ⟨h.nodup, by simp, ?_⟩
    rintro id hid _ hlast rfl
    rw [mem_singleton.mp hlast] at hid
    exact hfresh hid
  · intro id hid
    rcases mem_append.mp hid with hold | hnew
    · exact h.held_keep hkeep id hold
    · obtain rfl := mem_singleton.mp hnew
      exact ⟨s, by simp, hended, rfl, fun _ _ _ => ⟨destination, hget⟩⟩

theorem note (h : Remembers window ended memory steps counted) (hended : ended s.dialog)
    (hlatest : Latest steps s.time) (hin : ∀ a ∈ steps, ended a.dialog → a.callId = s.callId →
      s.dialog.srcAddr = a.dialog.srcAddr ∧ s.time - a.time < window)
    (hmemory : ∀ ip, memory' ip = if ip = s.dialog.srcAddr then
      ((memory s.dialog.srcAddr).note window s.time s.callId destination).1 else memory ip) :
    Remembers window ended memory' (steps ++ [s]) (counted ++
      if ((memory s.dialog.srcAddr).note window s.time s.callId destination).2 then [s.callId]
      else []) := by
  have hkeep : Keeps window s.time memory memory' := by
    intro ip id e hget hyoung
    rw [hmemory]
    split_ifs with hip
    · subst hip
      exact CallMemory.get?_note hget hyoung
    · exact hget
  split_ifs with hadded
  · have hget : (memory' s.dialog.srcAddr).get? s.callId = some (s.time, destination) := by
      rw [hmemory, if_pos rfl]
      exact CallMemory.get?_note_added hadded
    exact h.add hended hlatest hin hkeep hadded hget
  · rw [append_nil]
    exact h.keep hkeep

end Remembers

/-! ## What a message writes -/

namespace FraudDetector

variable {R : Type} (arith : RateArith R)

def callsOf (d : FraudDetector R) (ip : IpAddr) : List (DateTime × String) :=
  (d.callPatterns.peek ip).elim [] CallPattern.calls

def shortOf (d : FraudDetector R) (ip : IpAddr) : CallMemory :=
  (d.callPatterns.peek ip).elim .empty CallPattern.shortCalls

def refusedOf (d : FraudDetector R) (ip : IpAddr) : CallMemory :=
  (d.callPatterns.peek ip).elim .empty CallPattern.refusedCalls

def volumeCalls (d : FraudDetector R) (src : IpAddr) (now : DateTime) : ℕ :=
  ((d.callsOf src).filter (fun c => now - c.1 < d.thresholds.volumeWindow)).length

/-- A message puts its call into the short calls of its source. -/
def countsShort (d : FraudDetector R) (s : CheckedMessage) : Bool :=
  s.dialog.endedShort d.thresholds ∧
    ((d.shortOf s.dialog.srcAddr).note d.thresholds.wangiriWindow s.time s.callId
      (s.dialog.toUser.getD "")).2

/-- A message puts its call into the refused calls of its source. -/
def countsRefused (d : FraudDetector R) (s : CheckedMessage) : Bool :=
  s.dialog.endedRefused ∧
    ((d.refusedOf s.dialog.srcAddr).note FraudThresholds.sequentialWindow s.time s.callId
      (s.dialog.toUser.getD "")).2

structure Wrote (d d' : FraudDetector R) (ip : IpAddr) (p : CallPattern R) : Prop where
  patterns : d'.callPatterns = d.callPatterns.insert ip p
  thresholds : d'.thresholds = d.thresholds

variable {arith} {d d' : FraudDetector R} {ip : IpAddr} {p : CallPattern R} {now : DateTime}
  {s : CheckedMessage}

@[simp] theorem patternFor_calls : (d.patternFor ip now).calls = d.callsOf ip := by
  cases h : d.callPatterns.peek ip <;> simp [patternFor, callsOf, h, CallPattern.new]

@[simp] theorem patternFor_shortCalls : (d.patternFor ip now).shortCalls = d.shortOf ip := by
  cases h : d.callPatterns.peek ip <;> simp [patternFor, shortOf, h, CallPattern.new]

@[simp] theorem patternFor_refusedCalls : (d.patternFor ip now).refusedCalls = d.refusedOf ip := by
  cases h : d.callPatterns.peek ip <;> simp [patternFor, refusedOf, h, CallPattern.new]

namespace Wrote

section

variable (h : Wrote d d' ip p)
include h

section

variable (hroom : d.callPatterns.HasRoom ip)
include hroom

theorem callsOf (ip' : IpAddr) : d'.callsOf ip' = if ip' = ip then p.calls else d.callsOf ip' := by
  rw [FraudDetector.callsOf, h.patterns, LruMap.peek_insert hroom]
  split_ifs <;> rfl

theorem shortOf (ip' : IpAddr) :
    d'.shortOf ip' = if ip' = ip then p.shortCalls else d.shortOf ip' := by
  rw [FraudDetector.shortOf, h.patterns, LruMap.peek_insert hroom]
  split_ifs <;> rfl

theorem refusedOf (ip' : IpAddr) :
    d'.refusedOf ip' = if ip' = ip then p.refusedCalls else d.refusedOf ip' := by
  rw [FraudDetector.refusedOf, h.patterns, LruMap.peek_insert hroom]
  split_ifs <;> rfl

theorem callsOf_eq (hp : p.calls = d.callsOf ip) : d'.callsOf = d.callsOf := by
  funext ip'
  rw [h.callsOf hroom, hp]
  split_ifs with heq
  · rw [heq]
  · rfl

theorem shortOf_eq (hp : p.shortCalls = d.shortOf ip) : d'.shortOf = d.shortOf := by
  funext ip'
  rw [h.shortOf hroom, hp]
  split_ifs with heq
  · rw [heq]
  · rfl

theorem refusedOf_eq (hp : p.refusedCalls = d.refusedOf ip) : d'.refusedOf = d.refusedOf := by
  funext ip'
  rw [h.refusedOf hroom, hp]
  split_ifs with heq
  · rw [heq]
  · rfl

end

end

end Wrote

def afterShort (d : FraudDetector R) (s : CheckedMessage) : CallPattern R :=
  { d.patternFor s.dialog.srcAddr s.time with
    shortCalls := ((d.shortOf s.dialog.srcAddr).note d.thresholds.wangiriWindow s.time s.callId
      (s.dialog.toUser.getD "")).1 }

def afterRefused (d : FraudDetector R) (s : CheckedMessage) : CallPattern R :=
  { d.patternFor s.dialog.srcAddr s.time with
    refusedCalls := ((d.refusedOf s.dialog.srcAddr).note FraudThresholds.sequentialWindow s.time
      s.callId (s.dialog.toUser.getD "")).1 }

variable (arith) in
def afterInvite (d : FraudDetector R) (s : CheckedMessage) : CallPattern R :=
  (d.patternFor s.message.srcAddr s.time).place arith d.thresholds s.time (s.message.toUser.getD "")

theorem not_endedRefused {dialog : SipDialog} {t : FraudThresholds} (h : dialog.endedShort t) :
    ¬dialog.endedRefused := by
  simp only [SipDialog.endedShort, SipDialog.endedRefused, decide_eq_true_eq] at h ⊢
  rintro ⟨-, hfailed⟩
  rcases h.2.1 with hdone | hdone <;> simp [hdone] at hfailed

@[simp] theorem tick_callPatterns : (d.tick now).callPatterns = d.callPatterns := by
  unfold tick
  split_ifs <;> rfl

@[simp] theorem tick_thresholds : (d.tick now).thresholds = d.thresholds := by
  unfold tick
  split_ifs <;> rfl

theorem wrote_keep_tick : Wrote d ((d.tick now).keep ip p) ip p :=
  ⟨by simp [keep], by simp [keep]⟩

theorem recordIfShortCall_snd (hend : s.dialog.endedShort d.thresholds) :
    (d.recordIfShortCall s.message s.dialog).2 = d.keep s.dialog.srcAddr (d.afterShort s) := by
  simp [recordIfShortCall, hend, afterShort, CheckedMessage.time, CheckedMessage.callId]

theorem recordIfShortCall_of_not (hend : ¬s.dialog.endedShort d.thresholds) :
    d.recordIfShortCall s.message s.dialog = (none, d) := if_neg hend

theorem recordIfRefusedCall_snd (hend : s.dialog.endedRefused) :
    (d.recordIfRefusedCall s.message s.dialog).2 = d.keep s.dialog.srcAddr (d.afterRefused s) := by
  simp [recordIfRefusedCall, hend, afterRefused, CheckedMessage.time, CheckedMessage.callId]

theorem recordIfRefusedCall_of_not (hend : ¬s.dialog.endedRefused) :
    d.recordIfRefusedCall s.message s.dialog = (none, d) := if_neg hend

theorem check_of_endedShort (hend : s.dialog.endedShort d.thresholds)
    (hinvite : ¬s.message.isInvite) :
    Wrote d (d.check arith s.message s.dialog).2 s.dialog.srcAddr (d.afterShort s) := by
  have hnotRefused := not_endedRefused hend
  have hd' : (d.check arith s.message s.dialog).2 =
      ((d.tick s.time).recordIfShortCall s.message s.dialog).2 := by
    rcases hrec : (d.tick s.time).recordIfShortCall s.message s.dialog with ⟨_ | alert, d₁⟩
    · have hrefused := recordIfRefusedCall_of_not (d := d₁) hnotRefused
      simp only [CheckedMessage.time] at hrec
      simp [check, hrec, hrefused, hinvite]
    · simp only [CheckedMessage.time] at hrec
      simp [check, hrec]
  have hafter : (d.tick s.time).afterShort s = d.afterShort s := by
    simp [afterShort, patternFor, shortOf]
  rw [hd', recordIfShortCall_snd (by simpa using hend), hafter]
  exact wrote_keep_tick

theorem check_of_endedRefused (hend : s.dialog.endedRefused) (hinvite : ¬s.message.isInvite) :
    Wrote d (d.check arith s.message s.dialog).2 s.dialog.srcAddr (d.afterRefused s) := by
  have hnotShort : ¬s.dialog.endedShort (d.tick s.time).thresholds :=
    fun hshort => not_endedRefused hshort hend
  have hshort := recordIfShortCall_of_not hnotShort
  simp only [CheckedMessage.time] at hshort
  have hd' : (d.check arith s.message s.dialog).2 =
      ((d.tick s.time).recordIfRefusedCall s.message s.dialog).2 := by
    rcases hrec : (d.tick s.time).recordIfRefusedCall s.message s.dialog with ⟨_ | alert, d₁⟩
    · simp only [CheckedMessage.time] at hrec
      simp [check, hshort, hrec, hinvite]
    · simp only [CheckedMessage.time] at hrec
      simp [check, hshort, hrec]
  have hafter : (d.tick s.time).afterRefused s = d.afterRefused s := by
    simp [afterRefused, patternFor, refusedOf]
  rw [hd', recordIfRefusedCall_snd hend, hafter]
  exact wrote_keep_tick

theorem check_of_open (hshort : ¬s.dialog.endedShort d.thresholds)
    (hrefused : ¬s.dialog.endedRefused) :
    (d.check arith s.message s.dialog).2 =
      if s.message.isInvite then
        (d.tick s.time).keep s.message.srcAddr (d.afterInvite arith s)
      else d.tick s.time := by
  have hshort' := recordIfShortCall_of_not (d := d.tick s.time) (s := s) (by simpa using hshort)
  have hrefused' := recordIfRefusedCall_of_not (d := d.tick s.time) hrefused
  have hafter : (d.tick s.time).afterInvite arith s = d.afterInvite arith s := by
    simp [afterInvite, patternFor]
  rw [← hafter]
  simp only [CheckedMessage.time] at hshort' hrefused' ⊢
  by_cases hinvite : s.message.isInvite
  · simp [check, hshort', hrefused', hinvite, observeInvite, afterInvite, CheckedMessage.time]
  · simp [check, hshort', hrefused', hinvite]

theorem check_cases (arith : RateArith R) (d : FraudDetector R) (s : CheckedMessage)
    (hopen : s.message.isInvite → ¬s.dialog.endedShort d.thresholds ∧ ¬s.dialog.endedRefused) :
    let d' := (d.check arith s.message s.dialog).2
    (s.dialog.endedShort d.thresholds ∧ ¬s.message.isInvite ∧
      Wrote d d' s.dialog.srcAddr (d.afterShort s)) ∨
    (s.dialog.endedRefused ∧ ¬s.message.isInvite ∧ Wrote d d' s.dialog.srcAddr (d.afterRefused s)) ∨
    (s.message.isInvite ∧ ¬s.dialog.endedShort d.thresholds ∧ ¬s.dialog.endedRefused ∧
      Wrote d d' s.message.srcAddr (d.afterInvite arith s)) ∨
    (¬s.message.isInvite ∧ ¬s.dialog.endedShort d.thresholds ∧ ¬s.dialog.endedRefused ∧
      d'.callPatterns = d.callPatterns ∧ d'.thresholds = d.thresholds) := by
  by_cases hshort : s.dialog.endedShort d.thresholds
  · have hinvite : ¬s.message.isInvite := fun h => (hopen h).1 hshort
    exact .inl ⟨hshort, hinvite, check_of_endedShort hshort hinvite⟩
  by_cases hrefused : s.dialog.endedRefused
  · have hinvite : ¬s.message.isInvite := fun h => (hopen h).2 hrefused
    exact .inr (.inl ⟨hrefused, hinvite, check_of_endedRefused hrefused hinvite⟩)
  have hcheck : (d.check arith s.message s.dialog).2 = _ := check_of_open hshort hrefused
  by_cases hinvite : s.message.isInvite
  · rw [if_pos hinvite] at hcheck
    refine .inr (.inr (.inl ⟨hinvite, hshort, hrefused, ?_⟩))
    rw [hcheck]
    exact wrote_keep_tick
  · rw [if_neg hinvite] at hcheck
    refine .inr (.inr (.inr ⟨hinvite, hshort, hrefused, ?_, ?_⟩))
    · rw [hcheck, tick_callPatterns]
    · rw [hcheck, tick_thresholds]

end FraudDetector

/-! ## Runs -/

/-- The detector beside the messages that it was given and the calls that it counted. -/
structure FraudRun (R : Type) where
  detector : FraudDetector R
  seen : List CheckedMessage
  shortCounted : List String
  refusedCounted : List String

namespace FraudRun

variable {R : Type} (arith : RateArith R)

def start (d : FraudDetector R) : FraudRun R := ⟨d, [], [], []⟩

def step (r : FraudRun R) (s : CheckedMessage) : FraudRun R :=
  { detector := (r.detector.check arith s.message s.dialog).2
    seen := r.seen ++ [s]
    shortCounted := r.shortCounted ++ if r.detector.countsShort s then [s.callId] else []
    refusedCounted := r.refusedCounted ++ if r.detector.countsRefused s then [s.callId] else [] }

def run (r : FraudRun R) (steps : List CheckedMessage) : FraudRun R := steps.foldl (step arith) r

/-- The three counts are of calls: the volume window of a source holds the calls that it placed, as
they stand after its INVITE and at every later time, and no call is counted twice. -/
structure Counted (r : FraudRun R) : Prop where
  volume : ∀ src now, Latest r.seen now → r.detector.volumeCalls src now =
    callsPlaced r.seen src r.detector.thresholds.volumeWindow now
  invite : ∀ (init : List CheckedMessage) (s : CheckedMessage), r.seen = init ++ [s] →
    s.message.isInvite →
    (r.detector.callsOf s.message.srcAddr).length =
      callsPlaced r.seen s.message.srcAddr r.detector.thresholds.volumeWindow s.time
  short : ∀ id, r.shortCounted.count id ≤ 1
  refused : ∀ id, r.refusedCounted.count id ≤ 1

/-- A message of a finished call comes within the window of an earlier one, by the same source. -/
def InTime (window : ℤ) (ended : SipDialog → Bool) (a b : CheckedMessage) : Prop :=
  ended a.dialog → ended b.dialog → a.callId = b.callId →
    b.dialog.srcAddr = a.dialog.srcAddr ∧ b.time - a.time < window

instance (window : ℤ) (ended : SipDialog → Bool) (a b : CheckedMessage) :
    Decidable (InTime window ended a b) :=
  inferInstanceAs (Decidable (_ → _ → _ → _ ∧ _))

/-- No INVITE of a call comes again or behind its end, no message of a finished call comes when its
memory is gone, and the sources are not too many. -/
structure Regular (t : FraudThresholds) (steps : List CheckedMessage) : Prop where
  oneInvite : steps.Pairwise (fun a b =>
    a.message.isInvite → b.message.isInvite → a.callId ≠ b.callId)
  opens : ∀ s ∈ steps, s.message.isInvite → ¬s.dialog.endedShort t ∧ ¬s.dialog.endedRefused
  short : steps.Pairwise (InTime t.wangiriWindow (fun dialog => dialog.endedShort t))
  refused : steps.Pairwise (InTime FraudThresholds.sequentialWindow SipDialog.endedRefused)
  room : (steps.flatMap (CheckedMessage.sources t)).dedup.length ≤ FraudDetector.maxPatternEntries

def InOrder (steps : List CheckedMessage) : Prop := steps.Pairwise (fun a b => a.time ≤ b.time)

structure Tracks (t : FraudThresholds) (r : FraudRun R) : Prop where
  thresholds : r.detector.thresholds = t
  capacity : r.detector.callPatterns.capacity = FraudDetector.maxPatternEntries
  keys : ∀ ip ∈ r.detector.callPatterns.entries.keys, ip ∈ r.seen.flatMap (CheckedMessage.sources t)
  volume : ∀ ip now, Latest r.seen now →
    ((r.detector.callsOf ip).filter (fun c => now - c.1 < t.volumeWindow)).map Prod.fst =
      ((placements r.seen).filter (fun p => p.src = ip ∧ now - p.time < t.volumeWindow)).map
        Placement.time
  short : Remembers t.wangiriWindow (fun dialog => dialog.endedShort t) r.detector.shortOf r.seen
    r.shortCounted
  refused : Remembers FraudThresholds.sequentialWindow SipDialog.endedRefused r.detector.refusedOf
    r.seen r.refusedCounted

section Step

variable {arith} {t : FraudThresholds} {r : FraudRun R} {s : CheckedMessage}

theorem Regular.before (h : Regular t (r.seen ++ [s])) {a : CheckedMessage} (ha : a ∈ r.seen) :
    (a.message.isInvite → s.message.isInvite → a.callId ≠ s.callId) ∧
      InTime t.wangiriWindow (fun dialog => dialog.endedShort t) a s ∧
      InTime FraudThresholds.sequentialWindow SipDialog.endedRefused a s :=
  have hs : s ∈ [s] := mem_singleton_self s
  ⟨(pairwise_append.mp h.oneInvite).2.2 a ha s hs, (pairwise_append.mp h.short).2.2 a ha s hs,
    (pairwise_append.mp h.refused).2.2 a ha s hs⟩

theorem InOrder.latest (h : InOrder (r.seen ++ [s])) : Latest r.seen s.time :=
  fun a ha => (pairwise_append.mp h).2.2 a ha s (mem_singleton_self s)

variable {ip : IpAddr} {d' : FraudDetector R} (d : FraudDetector R)

theorem Tracks.hasRoom (h : Tracks t r) (hreg : Regular t (r.seen ++ [s]))
    (hip : ip ∈ s.sources t) : r.detector.callPatterns.HasRoom ip := by
  have hroom := hreg.room
  rw [← h.capacity] at hroom
  refine LruMap.hasRoom_of_keys (fun k hk => ?_) ?_ hroom
  · rw [flatMap_append]
    exact mem_append_left _ (h.keys k hk)
  · rw [flatMap_append]
    exact mem_append_right _ (by simpa using hip)

theorem Tracks.volume_keep (h : Tracks t r) (hinvite : ¬s.message.isInvite)
    (hcalls : ∀ ip, d'.callsOf ip = r.detector.callsOf ip) (ip : IpAddr) (now : DateTime)
    (hnow : Latest (r.seen ++ [s]) now) :
    ((d'.callsOf ip).filter (fun c => now - c.1 < t.volumeWindow)).map Prod.fst =
      ((placements (r.seen ++ [s])).filter (fun p =>
        p.src = ip ∧ now - p.time < t.volumeWindow)).map Placement.time := by
  have hplaced : placements (r.seen ++ [s]) = placements r.seen := by
    rw [placements_append, Placement.note, if_neg (fun hnew => hinvite hnew.1)]
  rw [hcalls, hplaced]
  exact h.volume ip now hnow.init

theorem placements_invite (hreg : Regular t (r.seen ++ [s])) (hinvite : s.message.isInvite) :
    placements (r.seen ++ [s]) = placements r.seen ++ [⟨s.message.srcAddr, s.callId, s.time⟩] := by
  rw [placements_append, Placement.note, if_pos]
  refine ⟨hinvite, ?_⟩
  intro hmem
  obtain ⟨p, hp, hcall⟩ := List.mem_map.mp hmem
  obtain ⟨a, ha, hainvite, hacall⟩ := invite_of_mem_placements hp
  exact (hreg.before ha).1 hainvite hinvite (hacall.trans hcall)

theorem afterInvite_calls :
    (d.afterInvite arith s).calls =
      (d.callsOf s.message.srcAddr ++ [(s.time, s.message.toUser.getD "")]).filter
        (fun c => s.time - c.1 < d.thresholds.volumeWindow) := by
  unfold FraudDetector.afterInvite CallPattern.place CallPattern.sampleBaseline
  simp only [FraudDetector.patternFor_calls]
  split_ifs <;> rfl

theorem afterInvite_shortCalls :
    (d.afterInvite arith s).shortCalls =
      (d.shortOf s.message.srcAddr).retain d.thresholds.wangiriWindow s.time := by
  unfold FraudDetector.afterInvite CallPattern.place CallPattern.sampleBaseline
  simp only [FraudDetector.patternFor_shortCalls]
  split_ifs <;> rfl

theorem afterInvite_refusedCalls :
    (d.afterInvite arith s).refusedCalls = d.refusedOf s.message.srcAddr := by
  unfold FraudDetector.afterInvite CallPattern.place CallPattern.sampleBaseline
  simp only [FraudDetector.patternFor_refusedCalls]
  split_ifs <;> rfl

theorem Tracks.volume_invite (h : Tracks t r) (hreg : Regular t (r.seen ++ [s]))
    (hinvite : s.message.isInvite) (hcalls : ∀ ip, d'.callsOf ip = if ip = s.message.srcAddr then
      (r.detector.afterInvite arith s).calls else r.detector.callsOf ip) (ip : IpAddr)
    (now : DateTime) (hnow : Latest (r.seen ++ [s]) now) :
    ((d'.callsOf ip).filter (fun c => now - c.1 < t.volumeWindow)).map Prod.fst =
      ((placements (r.seen ++ [s])).filter (fun p =>
        p.src = ip ∧ now - p.time < t.volumeWindow)).map Placement.time := by
  rw [hcalls, placements_invite hreg hinvite, filter_append, map_append,
    ← h.volume ip now hnow.init]
  split_ifs with hip
  · subst hip
    -- what is young now was young when the INVITE came
    have hyoung : ∀ c : DateTime × String, (decide (now - c.1 < t.volumeWindow) &&
        decide (s.time - c.1 < t.volumeWindow)) = decide (now - c.1 < t.volumeWindow) := by
      intro c
      have hle : s.time - c.1 ≤ now - c.1 := Int.sub_le_sub_right hnow.last _
      by_cases hc : now - c.1 < t.volumeWindow
      · simp [hc, Int.lt_of_le_of_lt hle hc]
      · simp [hc]
    rw [afterInvite_calls, h.thresholds, List.filter_filter]
    simp only [hyoung, filter_append, map_append]
    congr 1
    by_cases hlast : now - s.time < t.volumeWindow <;> simp [hlast]
  · simp [Ne.symm hip]

theorem Tracks.write (h : Tracks t r) {p : CallPattern R}
    (hwrote : r.detector.Wrote (r.step arith s).detector ip p) (hip : ip ∈ s.sources t)
    (hvolume : ∀ ip now, Latest (r.seen ++ [s]) now →
      (((r.step arith s).detector.callsOf ip).filter (fun c =>
        now - c.1 < t.volumeWindow)).map Prod.fst =
      ((placements (r.seen ++ [s])).filter (fun p =>
        p.src = ip ∧ now - p.time < t.volumeWindow)).map Placement.time)
    (hshort : Remembers t.wangiriWindow (fun dialog => dialog.endedShort t)
      (r.step arith s).detector.shortOf (r.seen ++ [s]) (r.step arith s).shortCounted)
    (hrefused : Remembers FraudThresholds.sequentialWindow SipDialog.endedRefused
      (r.step arith s).detector.refusedOf (r.seen ++ [s]) (r.step arith s).refusedCounted) :
    Tracks t (r.step arith s) where
  thresholds := hwrote.thresholds.trans h.thresholds
  capacity := by rw [hwrote.patterns, LruMap.capacity_insert, h.capacity]
  keys := by
    intro k hk
    rw [hwrote.patterns] at hk
    show k ∈ (r.seen ++ [s]).flatMap (CheckedMessage.sources t)
    rw [flatMap_append, mem_append]
    rcases LruMap.mem_keys_of_insert hk with hold | rfl
    · exact .inl (h.keys k hold)
    · exact .inr (by simpa using hip)
  volume := hvolume
  short := hshort
  refused := hrefused

theorem shortCounted_of_not (h : Tracks t r) (hend : ¬s.dialog.endedShort t) :
    (r.step arith s).shortCounted = r.shortCounted := by
  simp [step, FraudDetector.countsShort, h.thresholds, hend]

theorem refusedCounted_of_not (hend : ¬s.dialog.endedRefused) :
    (r.step arith s).refusedCounted = r.refusedCounted := by
  simp [step, FraudDetector.countsRefused, hend]

section

variable (h : Tracks t r)
include h

theorem Tracks.step_short (hreg : Regular t (r.seen ++ [s])) (hord : InOrder (r.seen ++ [s]))
    (hend : s.dialog.endedShort t) (hinvite : ¬s.message.isInvite)
    (hwrote : r.detector.Wrote (r.step arith s).detector s.dialog.srcAddr (r.detector.afterShort s)) :
    Tracks t (r.step arith s) := by
  have hip : s.dialog.srcAddr ∈ s.sources t := by simp [CheckedMessage.sources, hend]
  have hroom := h.hasRoom hreg hip
  have hcalls := hwrote.callsOf_eq hroom FraudDetector.patternFor_calls
  have hshort : ∀ ip, (r.step arith s).detector.shortOf ip = if ip = s.dialog.srcAddr then
      ((r.detector.shortOf s.dialog.srcAddr).note t.wangiriWindow s.time s.callId
        (s.dialog.toUser.getD "")).1 else r.detector.shortOf ip := by
    intro ip
    rw [hwrote.shortOf hroom, FraudDetector.afterShort, h.thresholds]
  have hrefused := hwrote.refusedOf_eq hroom FraudDetector.patternFor_refusedCalls
  refine h.write hwrote hip (h.volume_keep hinvite (congrFun hcalls)) ?_ ?_
  · have hcounted : (r.step arith s).shortCounted = r.shortCounted ++
        if ((r.detector.shortOf s.dialog.srcAddr).note t.wangiriWindow s.time s.callId
          (s.dialog.toUser.getD "")).2 then [s.callId] else [] := by
      simp [step, FraudDetector.countsShort, h.thresholds, hend]
    rw [hcounted]
    exact h.short.note hend hord.latest
      (fun a ha hended hcall => (hreg.before ha).2.1 hended hend hcall) hshort
  · rw [refusedCounted_of_not (FraudDetector.not_endedRefused hend), hrefused]
    exact h.refused.keep (fun _ _ _ hget _ => hget)

theorem Tracks.step_refused (hreg : Regular t (r.seen ++ [s])) (hord : InOrder (r.seen ++ [s]))
    (hend : s.dialog.endedRefused) (hinvite : ¬s.message.isInvite)
    (hwrote : r.detector.Wrote (r.step arith s).detector s.dialog.srcAddr (r.detector.afterRefused s)) :
    Tracks t (r.step arith s) := by
  have hip : s.dialog.srcAddr ∈ s.sources t := by simp [CheckedMessage.sources, hend]
  have hroom := h.hasRoom hreg hip
  have hcalls := hwrote.callsOf_eq hroom FraudDetector.patternFor_calls
  have hshort := hwrote.shortOf_eq hroom FraudDetector.patternFor_shortCalls
  have hrefused : ∀ ip, (r.step arith s).detector.refusedOf ip = if ip = s.dialog.srcAddr then
      ((r.detector.refusedOf s.dialog.srcAddr).note FraudThresholds.sequentialWindow s.time
        s.callId (s.dialog.toUser.getD "")).1 else r.detector.refusedOf ip := by
    intro ip
    rw [hwrote.refusedOf hroom, FraudDetector.afterRefused]
  refine h.write hwrote hip (h.volume_keep hinvite (congrFun hcalls)) ?_ ?_
  · have hnotShort : ¬s.dialog.endedShort t :=
      fun hended => FraudDetector.not_endedRefused hended hend
    rw [shortCounted_of_not h hnotShort, hshort]
    exact h.short.keep (fun _ _ _ hget _ => hget)
  · have hcounted : (r.step arith s).refusedCounted = r.refusedCounted ++
        if ((r.detector.refusedOf s.dialog.srcAddr).note FraudThresholds.sequentialWindow s.time
          s.callId (s.dialog.toUser.getD "")).2 then [s.callId] else [] := by
      simp [step, FraudDetector.countsRefused, hend]
    rw [hcounted]
    exact h.refused.note hend hord.latest
      (fun a ha hended hcall => (hreg.before ha).2.2 hended hend hcall) hrefused

theorem Tracks.step_invite (hreg : Regular t (r.seen ++ [s])) (hinvite : s.message.isInvite)
    (hshortEnd : ¬s.dialog.endedShort t) (hrefusedEnd : ¬s.dialog.endedRefused)
    (hwrote : r.detector.Wrote (r.step arith s).detector s.message.srcAddr (r.detector.afterInvite arith s)) :
    Tracks t (r.step arith s) := by
  have hip : s.message.srcAddr ∈ s.sources t := by
    simp [CheckedMessage.sources, hshortEnd, hrefusedEnd, hinvite]
  have hroom := h.hasRoom hreg hip
  have hrefused := hwrote.refusedOf_eq hroom (afterInvite_refusedCalls r.detector)
  refine h.write hwrote hip (h.volume_invite hreg hinvite (hwrote.callsOf hroom)) ?_ ?_
  · rw [shortCounted_of_not h hshortEnd]
    refine h.short.keep ?_
    intro ip id e hget hyoung
    rw [hwrote.shortOf hroom, afterInvite_shortCalls, h.thresholds]
    split_ifs with heq
    · rw [← heq]
      exact CallMemory.get?_retain hget hyoung
    · exact hget
  · rw [refusedCounted_of_not hrefusedEnd, hrefused]
    exact h.refused.keep (fun _ _ _ hget _ => hget)

theorem Tracks.step_other (hinvite : ¬s.message.isInvite) (hshortEnd : ¬s.dialog.endedShort t)
    (hrefusedEnd : ¬s.dialog.endedRefused)
    (hpatterns : (r.step arith s).detector.callPatterns = r.detector.callPatterns)
    (hthresholds : (r.step arith s).detector.thresholds = r.detector.thresholds) :
    Tracks t (r.step arith s) where
  thresholds := hthresholds.trans h.thresholds
  capacity := by rw [hpatterns, h.capacity]
  keys := by
    intro k hk
    rw [hpatterns] at hk
    show k ∈ (r.seen ++ [s]).flatMap (CheckedMessage.sources t)
    rw [flatMap_append]
    exact mem_append_left _ (h.keys k hk)
  volume := h.volume_keep hinvite (fun ip => by rw [FraudDetector.callsOf, hpatterns]; rfl)
  short := by
    rw [shortCounted_of_not h hshortEnd]
    refine h.short.keep (fun ip id e hget _ => ?_)
    rw [FraudDetector.shortOf, hpatterns]
    exact hget
  refused := by
    rw [refusedCounted_of_not hrefusedEnd]
    refine h.refused.keep (fun ip id e hget _ => ?_)
    rw [FraudDetector.refusedOf, hpatterns]
    exact hget

theorem Tracks.step (hreg : Regular t (r.seen ++ [s])) (hord : InOrder (r.seen ++ [s])) :
    Tracks t (r.step arith s) := by
  have hopen := hreg.opens s (by simp)
  rw [← h.thresholds] at hopen
  have hcases := FraudDetector.check_cases arith r.detector s hopen
  simp only [h.thresholds] at hcases
  rcases hcases with ⟨hend, hinvite, hwrote⟩ | ⟨hend, hinvite, hwrote⟩ |
    ⟨hinvite, hshort, hrefused, hwrote⟩ | ⟨hinvite, hshort, hrefused, hpatterns, hthresholds⟩
  · exact h.step_short hreg hord hend hinvite hwrote
  · exact h.step_refused hreg hord hend hinvite hwrote
  · exact h.step_invite hreg hinvite hshort hrefused hwrote
  · exact h.step_other hinvite hshort hrefused hpatterns (hthresholds.trans h.thresholds.symm)

theorem Tracks.calls_young (hreg : Regular t (r.seen ++ [s])) (hinvite : s.message.isInvite) :
    ∀ c ∈ (r.step arith s).detector.callsOf s.message.srcAddr,
    s.time - c.1 < t.volumeWindow := by
  have hopen := hreg.opens s (by simp) hinvite
  have hip : s.message.srcAddr ∈ s.sources t := by
    simp [CheckedMessage.sources, hopen.1, hopen.2, hinvite]
  have hcheck : (r.step arith s).detector = _ :=
    FraudDetector.check_of_open (by simpa [h.thresholds] using hopen.1) hopen.2
  rw [if_pos hinvite] at hcheck
  have hwrote : r.detector.Wrote (r.step arith s).detector s.message.srcAddr
      (r.detector.afterInvite arith s) := by
    rw [hcheck]
    exact FraudDetector.wrote_keep_tick
  rw [hwrote.callsOf (h.hasRoom hreg hip), if_pos rfl, afterInvite_calls, h.thresholds]
  intro c hc
  simpa using (mem_filter.mp hc).2

end

end Step

section Run

variable {t : FraudThresholds} {steps : List CheckedMessage}
  (destinationOf : String → Option String) (watch : List String) (hours : Option (ℕ × ℕ))

variable {s : CheckedMessage} (r : FraudRun R)

@[simp] theorem run_append (s : CheckedMessage) :
    r.run arith (steps ++ [s]) = (r.run arith steps).step arith s := by
  simp [run, foldl_append]

@[simp] theorem run_seen : (r.run arith steps).seen = r.seen ++ steps := by
  induction steps using List.reverseRecOn with
  | nil => simp [run]
  | append_singleton steps s ih =>
    rw [run_append, step, ih]
    simp

theorem Regular.init (h : Regular t (steps ++ [s])) : Regular t steps where
  oneInvite := (pairwise_append.mp h.oneInvite).1
  opens := fun a ha => h.opens a (mem_append_left _ ha)
  short := (pairwise_append.mp h.short).1
  refused := (pairwise_append.mp h.refused).1
  room := by
    refine le_trans ?_ h.room
    refine (subperm_of_subset (nodup_dedup _) ?_).length_le
    intro ip hip
    rw [mem_dedup] at hip ⊢
    rw [flatMap_append]
    exact mem_append_left _ hip

theorem tracks_start :
    Tracks t (start (FraudDetector.withThresholds destinationOf watch hours t) : FraudRun R) where
  thresholds := rfl
  capacity := rfl
  keys := fun _ hk => absurd hk (by simp [start, FraudDetector.withThresholds, LruMap.new])
  volume := fun _ _ _ => rfl
  short := ⟨nodup_nil, by simp [start]⟩
  refused := ⟨nodup_nil, by simp [start]⟩

theorem tracks_run (hreg : Regular t steps) (hord : InOrder steps) :
    Tracks t ((start (FraudDetector.withThresholds destinationOf watch hours t)).run arith
      steps) := by
  induction steps using List.reverseRecOn with
  | nil => exact tracks_start destinationOf watch hours
  | append_singleton steps s ih =>
    have htracks := ih hreg.init (pairwise_append.mp hord).1
    rw [run_append]
    apply htracks.step
    · simpa [start] using hreg
    · simpa [start] using hord

theorem Tracks.volumeCalls {r : FraudRun R} (h : Tracks t r) (src : IpAddr) {now : DateTime}
    (hnow : Latest r.seen now) :
    r.detector.volumeCalls src now = callsPlaced r.seen src t.volumeWindow now := by
  have hlist := congrArg List.length (h.volume src now hnow)
  rw [length_map, length_map] at hlist
  rw [FraudDetector.volumeCalls, h.thresholds]
  exact hlist

theorem Tracks.length_callsOf {r : FraudRun R} (h : Tracks t r) (hreg : Regular t (r.seen ++ [s]))
    (hord : InOrder (r.seen ++ [s])) (hinvite : s.message.isInvite) :
    ((r.step arith s).detector.callsOf s.message.srcAddr).length =
      callsPlaced (r.seen ++ [s]) s.message.srcAddr t.volumeWindow s.time := by
  have hlatest : Latest (r.seen ++ [s]) s.time := by
    intro a ha
    rcases mem_append.mp ha with hin | hlast
    · exact hord.latest a hin
    · rw [mem_singleton.mp hlast]
  have hyoung : ∀ c ∈ (r.step arith s).detector.callsOf s.message.srcAddr, _ :=
    h.calls_young hreg hinvite
  have htracks : Tracks t (r.step arith s) := h.step hreg hord
  have hcount := htracks.volumeCalls s.message.srcAddr hlatest
  rw [FraudDetector.volumeCalls, htracks.thresholds,
    filter_eq_self.mpr (by simpa using hyoung)] at hcount
  exact hcount

/-- In every run that is regular, the three counts are of calls. -/
theorem fraud_counts (arith : RateArith R) (t : FraudThresholds)
    (destinationOf : String → Option String) (watch : List String) (hours : Option (ℕ × ℕ))
    (steps : List CheckedMessage) (hord : InOrder steps) (hreg : Regular t steps) :
    ((start (FraudDetector.withThresholds destinationOf watch hours t)).run arith
      steps).Counted := by
  have h := tracks_run arith destinationOf watch hours hreg hord
  refine ⟨?_, ?_, ?_, ?_⟩
  · intro src now hnow
    rw [h.thresholds]
    exact h.volumeCalls src hnow
  · intro init s hseen hinvite
    rw [h.thresholds]
    rw [run_seen] at hseen ⊢
    obtain rfl : steps = init ++ [s] := hseen
    have hinit := tracks_run arith destinationOf watch hours hreg.init (pairwise_append.mp hord).1
    have hlength := hinit.length_callsOf arith (by simpa [start] using hreg)
      (by simpa [start] using hord) hinvite
    rw [run_seen] at hlength
    rw [run_append]
    exact hlength
  · exact nodup_iff_count_le_one.mp h.short.nodup
  · exact nodup_iff_count_le_one.mp h.refused.nodup

end Run

/-! ## Runs through a dialog store -/

def checkedBy (env : StoreEnv) : DialogStore → List SipMessage → List CheckedMessage
  | _, [] => []
  | store, m :: rest =>
    let store := store.processMessage env m
    let checked := checkedBy env store rest
    match m.callId.bind store.get with
    | some dialog => ⟨m, dialog⟩ :: checked
    | none => checked

def checkedCapture (messages : List SipMessage) : List CheckedMessage :=
  checkedBy (.plain 100) { maxDialogs := 10, rotate := true } messages

def rationalRates : RateArith ℚ where
  ofCount := fun n => n
  fold := fun old new => old * (9 / 10) + new * (1 / 10)
  exceeds := fun n rate multiplier => decide (rate * multiplier < n)
  text := fun rate => toString ((rate * 10).num / (rate * 10).den / 10) ++ "." ++
    toString ((rate * 10).num / (rate * 10).den % 10)

def shipped : FraudRun ℚ :=
  start (FraudDetector.withThresholds (fun _ => none) [] none .builtIn)

def capturedAt (second : ℤ) (m : SipMessage) : SipMessage :=
  { m with timestamp := second * 1000000000 }

def inviteAt (second : ℤ) (callId : String) : SipMessage :=
  capturedAt second (SipMessage.plainRequest callId 1 .invite "b1" "")

def notFoundAt (second : ℤ) (callId : String) : SipMessage :=
  capturedAt second (SipMessage.plainResponse callId 404 1 .invite "b1")

/-- A refused call, its answer captured twice, and a second call, hung up. -/
def twoCalls : List CheckedMessage :=
  checkedCapture [inviteAt 0 "c1", notFoundAt 1 "c1", notFoundAt 2 "c1", inviteAt 3 "c2",
    capturedAt 4 (SipMessage.plainResponse "c2" 200 1 .invite "b1"),
    capturedAt 5 (SipMessage.plainRequest "c2" 2 .bye "b2" ";tag=b"),
    capturedAt 5 (SipMessage.plainResponse "c2" 200 2 .bye "b2")]

theorem fraud_counts_twoCalls : (shipped.run rationalRates twoCalls).Counted :=
  fraud_counts rationalRates .builtIn (fun _ => none) [] none twoCalls
    (by unfold InOrder; decide +kernel)
    ⟨by decide +kernel, by decide +kernel, by decide +kernel, by decide +kernel,
      by decide +kernel⟩

/-- An INVITE captured twice is two calls of the volume window, and an answer that is captured
again when the window has passed is a second refused call. -/
theorem not_counted_repeated :
    InOrder (checkedCapture [inviteAt 0 "c1", inviteAt 1 "c1"]) ∧
      ¬(shipped.run rationalRates (checkedCapture [inviteAt 0 "c1", inviteAt 1 "c1"])).Counted ∧
      InOrder (checkedCapture [inviteAt 0 "c1", notFoundAt 1 "c1", notFoundAt 61 "c1"]) ∧
      ¬(shipped.run rationalRates
        (checkedCapture [inviteAt 0 "c1", notFoundAt 1 "c1", notFoundAt 61 "c1"])).Counted := by
  refine ⟨by unfold InOrder; decide +kernel, ?_, by unfold InOrder; decide +kernel, ?_⟩
  · intro h
    have hvolume := h.volume (.v4 0x0A000001) 1000000000 (by unfold Latest; decide +kernel)
    revert hvolume
    decide +kernel
  · intro h
    have hrefused := h.refused "c1"
    revert hrefused
    decide +kernel

end FraudRun

end Sipnab
