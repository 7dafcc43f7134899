import Sipnab.Tls.Decryptor

/-!
# Records held

What is held of each direction, and that the count of evictions tells when nothing was lost of it.
-/

namespace Sipnab.Tls.TlsDecryptor

open List

def queued (d : TlsDecryptor) (direction : SocketAddr × SocketAddr) : List PendingRecord :=
  (d.rewindPending.get? direction).getD []

structure Stays (d d' : TlsDecryptor) : Prop where
  keylogEntries : d'.keylogEntries = d.keylogEntries
  keylogGeneration : d'.keylogGeneration = d.keylogGeneration
  lastRewindGeneration : d'.lastRewindGeneration = d.lastRewindGeneration
  observedHandshakes : d'.observedHandshakes = d.observedHandshakes
  pendingClientRandoms : d'.pendingClientRandoms = d.pendingClientRandoms
  rsa : d'.rsa = d.rsa
  keysMayStillArrive : d'.keysMayStillArrive = d.keysMayStillArrive

theorem Stays.refl (d : TlsDecryptor) : Stays d d := ⟨rfl, rfl, rfl, rfl, rfl, rfl, rfl⟩

theorem Stays.trans {a b c : TlsDecryptor} (h : Stays a b) (h' : Stays b c) : Stays a c where
  keylogEntries := h'.keylogEntries.trans h.keylogEntries
  keylogGeneration := h'.keylogGeneration.trans h.keylogGeneration
  lastRewindGeneration := h'.lastRewindGeneration.trans h.lastRewindGeneration
  observedHandshakes := h'.observedHandshakes.trans h.observedHandshakes
  pendingClientRandoms := h'.pendingClientRandoms.trans h.pendingClientRandoms
  rsa := h'.rsa.trans h.rsa
  keysMayStillArrive := h'.keysMayStillArrive.trans h.keysMayStillArrive

/-- Records held may be lost, and are then counted; no session changes. -/
structure Evicts (d d' : TlsDecryptor) : Prop where
  stays : Stays d d'
  sessions : d'.sessions = d.sessions
  processed : d'.keylogProcessedCount = d.keylogProcessedCount
  sublist : ∀ direction, (d'.queued direction).Sublist (d.queued direction)
  le : d.rewindEvicted ≤ d'.rewindEvicted
  same : d'.rewindEvicted = d.rewindEvicted → ∀ direction, d'.queued direction = d.queued direction

namespace Evicts

theorem refl (d : TlsDecryptor) : Evicts d d :=
  ⟨.refl d, rfl, rfl, fun _ => .refl _, le_rfl, fun _ _ => rfl⟩

theorem trans {a b c : TlsDecryptor} (h : Evicts a b) (h' : Evicts b c) : Evicts a c where
  stays := h.stays.trans h'.stays
  sessions := h'.sessions.trans h.sessions
  processed := h'.processed.trans h.processed
  sublist direction := (h'.sublist direction).trans (h.sublist direction)
  le := h.le.trans h'.le
  same hsame direction := by
    have hle := h.le
    have hle' := h'.le
    rw [h'.same (by omega) direction, h.same (by omega) direction]

end Evicts

variable {d : TlsDecryptor}

variable {queue : List PendingRecord} (direction : SocketAddr × SocketAddr)

theorem evicts_dropFirst {first : SocketAddr × SocketAddr}
    {rest : List ((SocketAddr × SocketAddr) × List PendingRecord)}
    (h : d.rewindPending.entries = (first, queue) :: rest) (bytes : ℕ) :
    Evicts d { d with
      rewindPending := d.rewindPending.dropFirst 1
      rewindBytes := bytes
      rewindEvicted := d.rewindEvicted + queue.length } := by
  have hfirst : d.rewindPending.get? first = some queue :=
    IndexMap.get?_eq_some_iff.mpr (h ▸ mem_cons_self)
  have hqueued : ∀ direction, queued { d with
      rewindPending := d.rewindPending.dropFirst 1
      rewindBytes := bytes
      rewindEvicted := d.rewindEvicted + queue.length } direction =
        if direction = first then [] else d.queued direction := by
    intro direction
    rw [queued, IndexMap.get?_dropFirst_one h]
    split_ifs <;> rfl
  refine ⟨⟨rfl, rfl, rfl, rfl, rfl, rfl, rfl⟩, rfl, rfl, ?_, Nat.le_add_right _ _, ?_⟩
  · intro direction
    rw [hqueued]
    split_ifs
    · exact nil_sublist _
    · exact .refl _
  · intro hsame direction
    dsimp only at hsame
    have hempty : queue = [] := eq_nil_of_length_eq_zero (by omega)
    rw [hqueued]
    split_ifs with hdirection
    · rw [queued, hdirection, hfirst, hempty]
      rfl
    · rfl

theorem evicts_pop {direction : SocketAddr × SocketAddr} {old : PendingRecord}
    (h : d.rewindPending.get? direction = some (old :: queue)) (bytes : ℕ) :
    Evicts d { d with
      rewindPending := d.rewindPending.insert direction queue
      rewindBytes := bytes
      rewindEvicted := d.rewindEvicted + 1 } := by
  refine ⟨⟨rfl, rfl, rfl, rfl, rfl, rfl, rfl⟩, rfl, rfl, ?_, Nat.le_add_right _ _,
    fun hsame => absurd hsame (Nat.succ_ne_self _)⟩
  intro direction'
  rw [queued, queued, IndexMap.get?_insert]
  split_ifs with hdirection
  · rw [hdirection, h]
    exact sublist_cons_self _ _
  · exact .refl _

theorem evicts_evictDirection : Evicts d (d.evictDirection direction) := by
  unfold evictDirection
  split_ifs
  · cases hentries : d.rewindPending.entries with
    | nil =>
      have hdropped : (d.rewindPending.dropFirst 1).entries = d.rewindPending.entries.drop 1 := rfl
      have hsame : d.rewindPending.dropFirst 1 = d.rewindPending := by
        apply IndexMap.ext
        rw [hdropped, hentries]
        rfl
      have hvalues : (d.rewindPending.values.head?).getD [] = [] := by
        rw [IndexMap.values, hentries]
        rfl
      rw [hsame, hvalues]
      exact Evicts.refl d
    | cons e rest =>
      have hvalues : (d.rewindPending.values.head?).getD [] = e.2 := by
        rw [IndexMap.values, hentries]
        rfl
      rw [hvalues]
      exact evicts_dropFirst hentries _
  · exact Evicts.refl d

theorem evicts_evictOldest : Evicts d (d.evictOldest direction) := by
  unfold evictOldest
  split
  · next h =>
    split_ifs
    · exact evicts_pop h _
    · exact Evicts.refl d
  · exact Evicts.refl d

theorem evicts_evictOverBudget (n : ℕ) (d : TlsDecryptor) : Evicts d (evictOverBudget n d) := by
  induction n generalizing d with
  | zero => exact Evicts.refl d
  | succ n ih =>
    rw [evictOverBudget]
    split_ifs
    · exact Evicts.refl d
    · split
      · exact Evicts.refl d
      · next h => exact (evicts_dropFirst h d.rewindBytes).trans (ih _)
      · next key old queue _ h =>
        have hget : d.rewindPending.get? key = some (old :: queue) :=
          IndexMap.get?_eq_some_iff.mpr (h ▸ mem_cons_self)
        refine Evicts.trans ?_ (ih _)
        split_ifs with hqueue
        · rw [hqueue] at h
          exact evicts_dropFirst h _
        · exact evicts_pop hget _

structure Holds (d d' : TlsDecryptor) (item : PendingRecord) : Prop where
  stays : Stays d d'
  sessions : d'.sessions = d.sessions
  processed : d'.keylogProcessedCount = d.keylogProcessedCount
  sublist : ∀ direction, (d'.queued direction).Sublist
    (d.queued direction ++ if direction = (item.src, item.dst) then [item] else [])
  le : d.rewindEvicted ≤ d'.rewindEvicted
  same : d.keysMayStillArrive = true → d'.rewindEvicted = d.rewindEvicted → ∀ direction,
    d'.queued direction =
      d.queued direction ++ if direction = (item.src, item.dst) then [item] else []

def push (d : TlsDecryptor) (item : PendingRecord) : TlsDecryptor :=
  { d with
    rewindPending := d.rewindPending.alter (item.src, item.dst) (fun queue =>
      queue.getD [] ++ [item])
    rewindBytes := d.rewindBytes + item.record.payload.length }

theorem queued_push (item : PendingRecord) (direction : SocketAddr × SocketAddr) :
    (d.push item).queued direction =
      d.queued direction ++ if direction = (item.src, item.dst) then [item] else [] := by
  rw [queued, queued, push, IndexMap.get?_alter]
  split_ifs with hdirection
  · rw [hdirection]
    rfl
  · rw [append_nil]

theorem holds_of_evicts {roomy final : TlsDecryptor} {newest : Option DateTime}
    {item : PendingRecord} (hroom : Evicts { d with newestSeen := newest } roomy)
    (hfinal : Evicts (roomy.push item) final) : Holds d final item where
  stays := by
    have hnewest : Stays d { d with newestSeen := newest } := ⟨rfl, rfl, rfl, rfl, rfl, rfl, rfl⟩
    have hpush : Stays roomy (roomy.push item) := ⟨rfl, rfl, rfl, rfl, rfl, rfl, rfl⟩
    exact (hnewest.trans hroom.stays).trans (hpush.trans hfinal.stays)
  sessions := hfinal.sessions.trans hroom.sessions
  processed := hfinal.processed.trans hroom.processed
  sublist direction := by
    have hsub := hfinal.sublist direction
    rw [queued_push] at hsub
    exact hsub.trans ((hroom.sublist direction).append (.refl _))
  le := hroom.le.trans hfinal.le
  same := by
    intro _ hsame direction
    have hle : d.rewindEvicted ≤ roomy.rewindEvicted := hroom.le
    have hle' : roomy.rewindEvicted ≤ final.rewindEvicted := hfinal.le
    rw [hfinal.same (hle'.antisymm' (hsame.trans_le hle)) direction, queued_push,
      hroom.same (hle.antisymm' (hle'.trans_eq hsame)) direction]
    rfl

theorem holds_holdForRewind (record : TlsRecord) (src dst : SocketAddr) (timestamp : DateTime) :
    Holds d (d.holdForRewind record src dst timestamp) ⟨record, src, dst, timestamp⟩ := by
  unfold holdForRewind
  dsimp only
  split_ifs with harrive hlarge
  · refine ⟨⟨rfl, rfl, rfl, rfl, rfl, rfl, rfl⟩, rfl, rfl,
      fun direction => sublist_append_left _ _, le_rfl, ?_⟩
    intro hyes
    rw [hyes] at harrive
    cases harrive
  · exact ⟨⟨rfl, rfl, rfl, rfl, rfl, rfl, rfl⟩, rfl, rfl,
      fun direction => sublist_append_left _ _, Nat.le_succ _,
      fun _ hsame => absurd hsame (Nat.succ_ne_self _)⟩
  · exact holds_of_evicts ((evicts_evictDirection (src, dst)).trans (evicts_evictOldest (src, dst)))
      (evicts_evictOverBudget _ _)

end Sipnab.Tls.TlsDecryptor
