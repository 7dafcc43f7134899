import Sipnab.Capture.DecryptedExport

/-!
# What was not decrypted comes out as captured

The captured packets are followed through the reorder buffer: each is held, written or discarded,
and a packet of a connection that never decrypts keeps its bytes, as long as no other connection
between its two endpoints decrypts.
-/

namespace Sipnab

open List Option OrderedMap

/-- What the export is told, and when it is asked. A packet goes with the connection it belongs to,
and a message with the one it was decrypted from: two connections may follow each other between the
same endpoints. -/
inductive ExportEvent (γ : Type*)
  | captured (packet : CapturedPacket) (connection : γ)
  | srtpDecrypted (rtp : List UInt8)
  | rtcpSeen (src : SocketAddr)
  | sipDecrypted (connection : γ) (src dst : SocketAddr) (timestamp : DateTime)
      (message : List UInt8) (source : Source)
  | ready
  | finish
  | discard

/-- The export with the packets it was given, the ones rebuilt in their place, and what became of
its frames. -/
structure ExportRun (γ : Type*) where
  state : DecryptedExport
  packets : List (FrameKey × CapturedPacket × γ)
  rebuilt : List FrameKey
  written : List (FrameKey × ExportFrame)
  discarded : List FrameKey

namespace ExportRun

open DecryptedExport

variable {γ : Type*}

def start (window : ℤ) (byteCap : ℕ) : ExportRun γ := ⟨.new window byteCap, [], [], [], []⟩

def write (r : ExportRun γ) (out : List (FrameKey × ExportFrame) × DecryptedExport) : ExportRun γ :=
  { r with
    state := out.2
    written := r.written ++ out.1 }

def step (r : ExportRun γ) : ExportEvent γ → ExportRun γ
  | .captured packet connection =>
    { r with
      state := r.state.captured packet
      packets := r.packets ++ [(r.state.nextKey ⟨packet, none⟩, packet, connection)] }
  | .srtpDecrypted rtp =>
    { r with
      state := r.state.srtpDecrypted rtp
      rebuilt := r.rebuilt ++ ((r.state.srtpRebuild rtp).map Prod.fst).toList }
  | .rtcpSeen src => { r with state := r.state.rtcpSeen src }
  | .sipDecrypted _ src dst timestamp message source =>
    { r with state := r.state.sipDecrypted src dst timestamp message source }
  | .ready => r.write r.state.ready
  | .finish => r.write r.state.finish
  | .discard =>
    { r with
      state := r.state.discard
      discarded := r.discarded ++ r.state.held.keys }

def run (r : ExportRun γ) (events : List (ExportEvent γ)) : ExportRun γ := events.foldl step r

def capturedIn (events : List (ExportEvent γ)) : List (CapturedPacket × γ) :=
  events.filterMap (fun
    | .captured packet connection => some (packet, connection)
    | _ => none)

def decryptedIn (events : List (ExportEvent γ)) : List γ :=
  events.filterMap (fun
    | .sipDecrypted connection .. => some connection
    | _ => none)

/-- A packet that is to come out as captured: it did not become RTP, and it is no segment of a
connection that decrypts. -/
def Plain (decrypts : γ → Prop) (r : ExportRun γ) (e : FrameKey × CapturedPacket × γ) : Prop :=
  e ∈ r.packets ∧ e.1 ∉ r.rebuilt ∧ (segmentConn e.2.1 = none ∨ ¬decrypts e.2.2)

/-- The frames left in the order of their capture times, but for those counted as late. -/
def Ordered (written : List (FrameKey × ExportFrame)) (late : ℕ) : Prop :=
  ∃ onTime : List (FrameKey × ExportFrame), onTime.Sublist written ∧
    onTime.Pairwise (fun a b => a.2.packet.timestamp ≤ b.2.packet.timestamp) ∧
    onTime.length + late = written.length

/-- Where each packet is that is to come out as captured: still held, written once and unchanged, or
counted as discarded. -/
structure Conserved (decrypts : γ → Prop) (r : ExportRun γ) : Prop where
  distinct : (r.packets.map Prod.fst).Nodup
  once : ∀ e, r.Plain decrypts e →
    r.state.held.keys.count e.1 + (r.written.map Prod.fst).count e.1 + r.discarded.count e.1 = 1
  asCaptured : ∀ e, r.Plain decrypts e → ∀ frame, (e.1, frame) ∈ r.written → frame = ⟨e.2.1, none⟩
  counted : r.state.counts.discardedAtStop = r.discarded.length
  ordered : Ordered r.written r.state.counts.outOfOrder

/-- No segment that is still held, of a connection that does not decrypt, lies between the endpoints
of one that has. -/
def Unshared (decrypts : γ → Prop) (r : ExportRun γ) : Prop :=
  ∀ e ∈ r.packets, e.1 ∈ r.state.held.keys → ∀ pair ∈ segmentConn e.2.1,
    pair ∈ r.state.decrypted → decrypts e.2.2

instance (decrypts : γ → Prop) [DecidablePred decrypts] (r : ExportRun γ) :
    Decidable (r.Unshared decrypts) :=
  inferInstanceAs (Decidable (∀ e ∈ r.packets, e.1 ∈ r.state.held.keys →
    ∀ pair ∈ segmentConn e.2.1, pair ∈ r.state.decrypted → decrypts e.2.2))

/-- The endpoints are unshared whenever frames are released. -/
def UnsharedRun (decrypts : γ → Prop) (r : ExportRun γ) : List (ExportEvent γ) → Prop
  | [] => True
  | event :: events =>
    (event matches .ready | .finish → r.Unshared decrypts) ∧
      UnsharedRun decrypts (r.step event) events

/-! ## What holds on the way -/

/-- The frames on time reach no later than the newest one written. -/
def OrderedUpTo (last : Option DateTime) (written : List (FrameKey × ExportFrame)) (late : ℕ) :
    Prop :=
  ∃ onTime : List (FrameKey × ExportFrame), onTime.Sublist written ∧
    onTime.Pairwise (fun a b => a.2.packet.timestamp ≤ b.2.packet.timestamp) ∧
    onTime.length + late = written.length ∧
    ∀ e ∈ onTime, ∃ l, last = some l ∧ e.2.packet.timestamp ≤ l

structure Inv (decrypts : γ → Prop) (r : ExportRun γ) : Prop where
  known : ∀ k, k ∈ r.packets.map Prod.fst ∨ k ∈ r.state.held.keys ∨ k ∈ r.written.map Prod.fst ∨
    k ∈ r.discarded → (ofLex k).2 < r.state.arrivals
  distinct : (r.packets.map Prod.fst).Nodup
  once : ∀ e, r.Plain decrypts e →
    r.state.held.keys.count e.1 + (r.written.map Prod.fst).count e.1 + r.discarded.count e.1 = 1
  heldAs : ∀ e, r.Plain decrypts e → ∀ entry, r.state.held.get? e.1 = some entry →
    entry.frame = ⟨e.2.1, none⟩ ∧ entry.conn = segmentConn e.2.1
  asCaptured : ∀ e, r.Plain decrypts e → ∀ frame, (e.1, frame) ∈ r.written → frame = ⟨e.2.1, none⟩
  times : ∀ e ∈ r.state.held.entries, (ofLex e.1).1 = e.2.frame.packet.timestamp
  counted : r.state.counts.discardedAtStop = r.discarded.length
  ordered : OrderedUpTo r.state.lastWritten r.written r.state.counts.outOfOrder

variable {decrypts : γ → Prop} {r : ExportRun γ}

theorem Inv.conserved (h : r.Inv decrypts) : r.Conserved decrypts := by
  obtain ⟨onTime, hsublist, hpairwise, hlength, -⟩ := h.ordered
  exact ⟨h.distinct, h.once, h.asCaptured, h.counted, onTime, hsublist, hpairwise, hlength⟩

theorem OrderedUpTo.late {last : Option DateTime} {written : List (FrameKey × ExportFrame)}
    {late : ℕ} (h : OrderedUpTo last written late) (e : FrameKey × ExportFrame) :
    OrderedUpTo last (written ++ [e]) (late + 1) := by
  obtain ⟨onTime, hsublist, hpairwise, hlength, hlast⟩ := h
  refine ⟨onTime, hsublist.trans (sublist_append_left _ _), hpairwise, ?_, hlast⟩
  rw [length_append, length_singleton]
  omega

theorem OrderedUpTo.onTime {last : Option DateTime} {written : List (FrameKey × ExportFrame)}
    {late : ℕ} (h : OrderedUpTo last written late) (e : FrameKey × ExportFrame)
    (hlast : ∀ l, last = some l → l ≤ e.2.packet.timestamp) :
    OrderedUpTo (some e.2.packet.timestamp) (written ++ [e]) late := by
  obtain ⟨onTime, hsublist, hpairwise, hlength, hbound⟩ := h
  have hle : ∀ a ∈ onTime, a.2.packet.timestamp ≤ e.2.packet.timestamp := by
    intro a ha
    obtain ⟨l, hl, hal⟩ := hbound a ha
    exact hal.trans (hlast l hl)
  refine ⟨onTime ++ [e], hsublist.append (List.Sublist.refl _), ?_, ?_, fun a ha => ?_⟩
  · refine pairwise_append.mpr ⟨hpairwise, pairwise_singleton _ _, fun a ha b hb => ?_⟩
    obtain rfl := mem_singleton.mp hb
    exact hle a ha
  · rw [length_append, length_append, length_singleton]
    omega
  · refine ⟨_, rfl, ?_⟩
    rcases mem_append.mp ha with hold | hnew
    · exact hle a hold
    · rw [mem_singleton.mp hnew]

/-! ## One release -/

theorem release_eq (x : DecryptedExport) (key : FrameKey) (entry : ExportEntry) :
    (x.release key entry).2.held = x.held.erase key ∧
    (x.release key entry).2.arrivals = x.arrivals ∧
    (x.release key entry).2.decrypted = x.decrypted ∧
    (x.release key entry).2.counts.discardedAtStop = x.counts.discardedAtStop ∧
    (x.replaced entry = true ∧ (x.release key entry).1 = none ∧
        (x.release key entry).2.lastWritten = x.lastWritten ∧
        (x.release key entry).2.counts.outOfOrder = x.counts.outOfOrder ∨
      x.replaced entry = false ∧ (x.release key entry).1 = some entry.frame ∧
        (x.lastWritten.any ((ofLex key).1 < ·) = true ∧
            (x.release key entry).2.lastWritten = x.lastWritten ∧
            (x.release key entry).2.counts.outOfOrder = x.counts.outOfOrder + 1 ∨
          x.lastWritten.any ((ofLex key).1 < ·) = false ∧
            (x.release key entry).2.lastWritten = some (ofLex key).1 ∧
            (x.release key entry).2.counts.outOfOrder = x.counts.outOfOrder)) := by
  have hreplaced : ∀ held bytes current,
      ({ x with held := held, heldBytes := bytes, current := current } : DecryptedExport).replaced
        entry = x.replaced entry := fun _ _ _ => rfl
  unfold release
  dsimp only
  rw [hreplaced]
  cases hr : x.replaced entry with
  | true => simp
  | false =>
    cases htls : entry.tls <;>
      cases hlate : x.lastWritten.any ((ofLex key).1 < ·) <;> simp [hlate]

theorem mem_keys_erase {m : OrderedMap FrameKey ExportEntry} {k key : FrameKey}
    (h : k ∈ (m.erase key).keys) : k ∈ m.keys := by
  obtain ⟨e, he, rfl⟩ := List.mem_map.mp h
  exact List.mem_map_of_mem (OrderedMap.mem_entries_erase.mp he).1

theorem Inv.not_replaced (h : r.Inv decrypts) (hu : r.Unshared decrypts)
    {e : FrameKey × CapturedPacket × γ} (he : r.Plain decrypts e) {entry : ExportEntry}
    (hget : r.state.held.get? e.1 = some entry) : r.state.replaced entry = false := by
  obtain ⟨-, hconn⟩ := h.heldAs e he entry hget
  by_contra hreplaced
  rw [Bool.not_eq_false, DecryptedExport.replaced, decide_eq_true_eq, hconn] at hreplaced
  cases hsegment : segmentConn e.2.1 with
  | none =>
    rw [hsegment] at hreplaced
    exact absurd hreplaced.2 (by simp)
  | some pair =>
    have hmem : pair ∈ r.state.decrypted := by simpa [hsegment] using hreplaced.2
    have hkey : e.1 ∈ r.state.held.keys := OrderedMap.mem_keys_iff.mpr ⟨entry, hget⟩
    have hdecrypts := hu e he.1 hkey pair hsegment hmem
    rcases he.2.2 with hnone | hnot
    · rw [hnone] at hsegment
      cases hsegment
    · exact hnot hdecrypts

theorem Inv.release (h : r.Inv decrypts) (hu : r.Unshared decrypts) {key : FrameKey}
    {entry : ExportEntry} (hget : r.state.held.get? key = some entry) :
    (r.write (((r.state.release key entry).1.map (key, ·)).toList,
      (r.state.release key entry).2)).Inv decrypts := by
  obtain ⟨hheld, harrivals, -, hdiscarded, hcase⟩ := release_eq r.state key entry
  have hmem := OrderedMap.get?_eq_some_iff.mp hget
  have hkey : key ∈ r.state.held.keys := List.mem_map_of_mem hmem
  have hperm := keys_perm_erase hget
  have hnot : ∀ e, r.Plain decrypts e → r.state.held.get? e.1 = some entry →
      r.state.replaced entry = false := fun e he hk => h.not_replaced hu he hk
  generalize (r.state.release key entry).2 = x at *
  generalize (r.state.release key entry).1 = frame at *
  have hframe : ∀ e ∈ (frame.map (key, ·)).toList, e = (key, entry.frame) := by
    rcases hcase with ⟨-, rfl, -, -⟩ | ⟨-, rfl, -⟩
    · simp
    · simp
  refine ⟨fun k hk => ?_, h.distinct, fun e he => ?_, fun e he entry' hentry => ?_,
    fun e he f hf => ?_, fun e he => ?_, hdiscarded.trans h.counted, ?_⟩
  · change _ ∨ k ∈ x.held.keys ∨ k ∈ (r.written ++ (frame.map (key, ·)).toList).map Prod.fst ∨ _ at hk
    change _ < x.arrivals
    rw [hheld, map_append, mem_append] at hk
    rw [harrivals]
    rcases hk with hk | hk | (hk | hk) | hk
    · exact h.known k (.inl hk)
    · exact h.known k (.inr (.inl (mem_keys_erase hk)))
    · exact h.known k (.inr (.inr (.inl hk)))
    · obtain ⟨e, he, rfl⟩ := List.mem_map.mp hk
      rw [hframe e he]
      exact h.known key (.inr (.inl hkey))
    · exact h.known k (.inr (.inr (.inr hk)))
  · have honce := h.once e he
    rw [hperm.count_eq, count_cons] at honce
    change x.held.keys.count e.1 + ((r.written ++ (frame.map (key, ·)).toList).map Prod.fst).count
      e.1 + r.discarded.count e.1 = 1
    rw [hheld, map_append, count_append]
    rcases hcase with ⟨hreplaced, rfl, -, -⟩ | ⟨-, rfl, -⟩
    · have hne : key ≠ e.1 := by
        rintro rfl
        rw [hnot e he hget] at hreplaced
        cases hreplaced
      simpa [hne] using honce
    · simp only [map_some, toList_some, map_cons, map_nil, count_singleton]
      omega
  · change x.held.get? e.1 = some entry' at hentry
    rw [hheld, get?_erase] at hentry
    split_ifs at hentry
    exact h.heldAs e he entry' hentry
  · rcases mem_append.mp hf with hold | hnew
    · exact h.asCaptured e he f hold
    · have heq := hframe _ hnew
      obtain ⟨hk, rfl⟩ := Prod.mk.inj heq
      rw [← hk] at hget
      exact (h.heldAs e he entry hget).1
  · change e ∈ x.held.entries at he
    rw [hheld] at he
    exact h.times e (OrderedMap.mem_entries_erase.mp he).1
  · change OrderedUpTo x.lastWritten (r.written ++ (frame.map (key, ·)).toList) x.counts.outOfOrder
    have htime : (ofLex key).1 = entry.frame.packet.timestamp := h.times _ hmem
    rcases hcase with ⟨-, rfl, hlast, hlate⟩ | ⟨-, rfl, ⟨-, hlast, hlate⟩ | ⟨hany, hlast, hlate⟩⟩
    · rw [hlast, hlate]
      simpa using h.ordered
    · rw [hlast, hlate]
      exact h.ordered.late (key, entry.frame)
    · rw [hlast, hlate, htime]
      refine h.ordered.onTime (key, entry.frame) (fun l hl => ?_)
      rw [hl, any_some, decide_eq_false_iff_not, not_lt, htime] at hany
      exact hany

theorem Unshared.release (h : r.Unshared decrypts) (key : FrameKey) (entry : ExportEntry)
    (out : List (FrameKey × ExportFrame)) :
    (r.write (out, (r.state.release key entry).2)).Unshared decrypts := by
  obtain ⟨hheld, -, hdecrypted, -⟩ := release_eq r.state key entry
  intro e he hkey pair hpair hmem
  change e.1 ∈ (r.state.release key entry).2.held.keys at hkey
  change pair ∈ (r.state.release key entry).2.decrypted at hmem
  rw [hheld] at hkey
  rw [hdecrypted] at hmem
  exact h e he (mem_keys_erase hkey) pair hpair hmem

theorem write_releaseWhile {P : ExportRun γ → Prop}
    (hstep : ∀ (r : ExportRun γ) (key : FrameKey) (entry : ExportEntry),
      r.state.held.get? key = some entry → P r →
        P (r.write (((r.state.release key entry).1.map (key, ·)).toList,
          (r.state.release key entry).2)))
    (due : DecryptedExport → FrameKey → Bool) (fuel : ℕ) (h : P r) :
    P (r.write (DecryptedExport.releaseWhile due fuel r.state)) := by
  have hsame : ∀ r : ExportRun γ, r.write ([], r.state) = r := by
    intro r
    unfold write
    rw [append_nil]
  induction fuel generalizing r with
  | zero =>
    rw [DecryptedExport.releaseWhile, hsame]
    exact h
  | succ fuel ih =>
    unfold DecryptedExport.releaseWhile
    split
    · rw [hsame]
      exact h
    · rename_i key entry rest hentries
      split_ifs
      · have hget : r.state.held.get? key = some entry :=
          OrderedMap.get?_eq_some_iff.mpr (by rw [hentries]; exact mem_cons_self)
        have hrest := ih (hstep r key entry hget h)
        unfold write at hrest ⊢
        rw [← append_assoc]
        exact hrest
      · rw [hsame]
        exact h

theorem Inv.releaseWhile (due : DecryptedExport → FrameKey → Bool) (fuel : ℕ)
    (h : r.Inv decrypts) (hu : r.Unshared decrypts) :
    (r.write (DecryptedExport.releaseWhile due fuel r.state)).Inv decrypts := by
  have hboth := write_releaseWhile
    (P := fun r : ExportRun γ => r.Inv decrypts ∧ r.Unshared decrypts)
    (fun r key entry hget hr => ⟨hr.1.release hr.2 hget, hr.2.release key entry _⟩) due fuel
    ⟨h, hu⟩
  exact hboth.1

/-! ## The other steps -/

theorem Inv.not_known (h : r.Inv decrypts) (frame : ExportFrame) :
    ¬(r.state.nextKey frame ∈ r.packets.map Prod.fst ∨ r.state.nextKey frame ∈ r.state.held.keys ∨
      r.state.nextKey frame ∈ r.written.map Prod.fst ∨ r.state.nextKey frame ∈ r.discarded) :=
  fun hmem => lt_irrefl _ (h.known _ hmem)

theorem Inv.hold (h : r.Inv decrypts) {x : DecryptedExport} {entry : ExportEntry}
    (hx : Holds r.state x entry) (new : Option (CapturedPacket × γ))
    (hnew : ∀ e ∈ new, entry.frame = ⟨e.1, none⟩ ∧ entry.conn = segmentConn e.1) :
    ({ r with
      state := x
      packets := r.packets ++ (new.map (r.state.nextKey entry.frame, ·)).toList } :
      ExportRun γ).Inv decrypts := by
  obtain ⟨hheld, harrivals, hlast, hdiscarded, hlate⟩ := hx
  have hfresh := h.not_known entry.frame
  have hkey : (ofLex (r.state.nextKey entry.frame)).2 = r.state.arrivals := rfl
  have hstamp : (ofLex (r.state.nextKey entry.frame)).1 = entry.frame.packet.timestamp := rfl
  generalize r.state.nextKey entry.frame = key at *
  have hperm : (r.state.held.insert key entry).keys.Perm (key :: r.state.held.keys) :=
    keys_insert_of_not_mem (fun hk => hfresh (.inr (.inl hk))) entry
  have hpackets : ∀ e ∈ (new.map (key, ·)).toList, e.1 = key ∧ e.2 ∈ new := by
    cases new with
    | none => simp
    | some p => simp
  refine ⟨fun k hk => ?_, ?_, fun e he => ?_, fun e he entry' hentry => ?_,
    fun e he f hf => ?_, fun e he => ?_, hdiscarded.trans h.counted, ?_⟩
  · change k ∈ (r.packets ++ (new.map (key, ·)).toList).map Prod.fst ∨ k ∈ x.held.keys ∨ _ at hk
    change _ < x.arrivals
    rw [hheld, hperm.mem_iff, mem_cons, map_append, mem_append] at hk
    rw [harrivals]
    have hone : k = key → (ofLex k).2 < r.state.arrivals + 1 := by
      rintro rfl
      rw [hkey]
      exact Nat.lt_succ_self _
    rcases hk with (hk | hk) | (hk | hk) | hk
    · exact Nat.lt_succ_of_lt (h.known k (.inl hk))
    · obtain ⟨e, he, rfl⟩ := List.mem_map.mp hk
      exact hone (hpackets e he).1
    · exact hone hk
    · exact Nat.lt_succ_of_lt (h.known k (.inr (.inl hk)))
    · exact Nat.lt_succ_of_lt (h.known k (.inr (.inr hk)))
  · rw [map_append]
    refine nodup_append.mpr ⟨h.distinct, ?_, fun a ha b hb => ?_⟩
    · cases new with
      | none => simp
      | some p => simp
    · obtain ⟨e, he, rfl⟩ := List.mem_map.mp hb
      rw [(hpackets e he).1]
      rintro rfl
      exact hfresh (.inl ha)
  · change x.held.keys.count e.1 + _ + _ = 1
    rw [hheld, hperm.count_eq, count_cons]
    rcases mem_append.mp he.1 with hold | hmem
    · have hne : key ≠ e.1 := by
        rintro rfl
        exact hfresh (.inl (List.mem_map_of_mem hold))
      have honce := h.once e ⟨hold, he.2⟩
      simpa [hne] using honce
    · rw [(hpackets e hmem).1, count_eq_zero_of_not_mem (fun hk => hfresh (.inr (.inl hk))),
        count_eq_zero_of_not_mem (fun hk => hfresh (.inr (.inr (.inl hk)))),
        count_eq_zero_of_not_mem (fun hk => hfresh (.inr (.inr (.inr hk))))]
      simp
  · change x.held.get? e.1 = some entry' at hentry
    rw [hheld, get?_insert] at hentry
    rcases mem_append.mp he.1 with hold | hmem
    · have hne : e.1 ≠ key := by
        rintro rfl
        exact hfresh (.inl (List.mem_map_of_mem hold))
      rw [if_neg hne] at hentry
      exact h.heldAs e ⟨hold, he.2⟩ entry' hentry
    · obtain ⟨hk, hmem⟩ := hpackets e hmem
      rw [if_pos hk] at hentry
      cases hentry
      exact hnew e.2 hmem
  · rcases mem_append.mp he.1 with hold | hmem
    · exact h.asCaptured e ⟨hold, he.2⟩ f hf
    · rw [(hpackets e hmem).1] at hf
      exact absurd (.inr (.inr (.inl (List.mem_map_of_mem hf)))) hfresh
  · change e ∈ x.held.entries at he
    rw [hheld, mem_entries_insert] at he
    rcases he with rfl | ⟨-, hold⟩
    · exact hstamp
    · exact h.times e hold
  · change OrderedUpTo x.lastWritten r.written x.counts.outOfOrder
    rw [hlast, hlate]
    exact h.ordered

section

variable (h : r.Inv decrypts)
include h

theorem Inv.idle {x : DecryptedExport} (hx : Idle r.state x) :
    ({ r with state := x } : ExportRun γ).Inv decrypts := by
  obtain ⟨hheld, harrivals, hlast, hdiscarded, hlate⟩ := hx
  refine ⟨?_, h.distinct, ?_, ?_, h.asCaptured, ?_, hdiscarded.trans h.counted, ?_⟩
  · change ∀ k, _ ∨ k ∈ x.held.keys ∨ _ → _ < x.arrivals
    rw [hheld, harrivals]
    exact h.known
  · change ∀ e : FrameKey × CapturedPacket × γ, _ → x.held.keys.count e.1 + _ + _ = 1
    rw [hheld]
    exact h.once
  · change ∀ e : FrameKey × CapturedPacket × γ, _ → ∀ entry, x.held.get? e.1 = some entry → _
    rw [hheld]
    exact h.heldAs
  · change ∀ e ∈ x.held.entries, _
    rw [hheld]
    exact h.times
  · change OrderedUpTo x.lastWritten r.written x.counts.outOfOrder
    rw [hlast, hlate]
    exact h.ordered

theorem Inv.captured (packet : CapturedPacket) (connection : γ) :
    (r.step (.captured packet connection)).Inv decrypts := by
  refine h.hold (r.state.captured_holds packet) (some (packet, connection)) ?_
  rintro e ⟨⟩
  exact ⟨rfl, rfl⟩

theorem Inv.sipDecrypted (connection : γ) (src dst : SocketAddr) (timestamp : DateTime)
    (message : List UInt8) (source : Source) :
    (r.step (.sipDecrypted connection src dst timestamp message source)).Inv decrypts := by
  cases hdir : r.state.directions.get? (src, dst) with
  | none => exact h.idle (r.state.sipDecrypted_idle hdir timestamp message source)
  | some dir =>
    have hhold := h.hold (r.state.sipDecrypted_holds hdir timestamp message source) none
      (fun e he => by cases he)
    rw [map_none, toList_none, append_nil] at hhold
    exact hhold

theorem Inv.srtpDecrypted (rtp : List UInt8) : (r.step (.srtpDecrypted rtp)).Inv decrypts := by
  unfold step DecryptedExport.srtpDecrypted
  dsimp only
  cases hrebuild : r.state.srtpRebuild rtp with
  | none =>
    rw [map_none, toList_none, append_nil]
    exact h.idle ⟨rfl, rfl, rfl, rfl, rfl⟩
  | some found =>
    obtain ⟨key, entry, frame⟩ := found
    obtain ⟨hget, -⟩ := srtpRebuild_eq_some hrebuild
    dsimp only
    rw [map_some, toList_some]
    generalize hnew : (⟨⟨rebuiltPacket entry.frame.packet frame, some .srtp⟩, none, false⟩ :
      ExportEntry) = new
    have hperm := keys_insert_of_mem hget new
    have hplain : ∀ e, Plain decrypts ({ r with rebuilt := r.rebuilt ++ [key] } : ExportRun γ) e →
        r.Plain decrypts e ∧ e.1 ≠ key := by
      rintro e ⟨hmem, hnot, hor⟩
      rw [mem_append, mem_singleton, not_or] at hnot
      exact ⟨⟨hmem, hnot.1, hor⟩, hnot.2⟩
    refine ⟨fun k hk => ?_, h.distinct, fun e he => ?_, fun e he entry' hentry => ?_,
      fun e he => h.asCaptured e (hplain e he).1, fun e he => ?_, h.counted, h.ordered⟩
    · change _ ∨ k ∈ (r.state.held.insert key new).keys ∨ _ at hk
      rw [hperm.mem_iff] at hk
      exact h.known k hk
    · change (r.state.held.insert key new).keys.count e.1 + _ + _ = 1
      rw [hperm.count_eq]
      exact h.once e (hplain e he).1
    · change (r.state.held.insert key new).get? e.1 = some entry' at hentry
      rw [get?_insert, if_neg (hplain e he).2] at hentry
      exact h.heldAs e (hplain e he).1 entry' hentry
    · change e ∈ (r.state.held.insert key new).entries at he
      rw [mem_entries_insert] at he
      rcases he with rfl | ⟨-, hold⟩
      · rw [← hnew]
        exact h.times (key, entry) (OrderedMap.get?_eq_some_iff.mp hget)
      · exact h.times e hold

theorem Inv.discard : (r.step .discard).Inv decrypts where
  known k hk := by
    change _ ∨ k ∈ [] ∨ _ ∨ k ∈ r.discarded ++ r.state.held.keys at hk
    rw [mem_append] at hk
    rcases hk with hk | hk | hk | hk | hk
    · exact h.known k (.inl hk)
    · cases hk
    · exact h.known k (.inr (.inr (.inl hk)))
    · exact h.known k (.inr (.inr (.inr hk)))
    · exact h.known k (.inr (.inl hk))
  distinct := h.distinct
  once e he := by
    have honce := h.once e he
    change ([] : List FrameKey).count e.1 + _ + (r.discarded ++ r.state.held.keys).count e.1 = 1
    rw [count_append, count_nil]
    change _ + (r.written.map Prod.fst).count e.1 + _ = 1
    omega
  heldAs e he entry hentry := by
    cases hentry
  asCaptured := h.asCaptured
  times e he := by cases he
  counted := by
    change r.state.counts.discardedAtStop + r.state.held.length =
      (r.discarded ++ r.state.held.keys).length
    rw [length_append, h.counted, OrderedMap.keys, length_map]
    rfl
  ordered := h.ordered

theorem Inv.step {event : ExportEvent γ} (hu : event matches .ready | .finish → r.Unshared decrypts) :
    (r.step event).Inv decrypts := by
  cases event with
  | captured packet connection => exact h.captured packet connection
  | srtpDecrypted rtp => exact h.srtpDecrypted rtp
  | rtcpSeen src => exact h.idle (r.state.rtcpSeen_idle src)
  | sipDecrypted connection src dst timestamp message source =>
    exact h.sipDecrypted connection src dst timestamp message source
  | ready => exact h.releaseWhile _ _ (hu rfl)
  | finish => exact h.releaseWhile _ _ (hu rfl)
  | discard => exact h.discard

end

theorem Inv.run (h : r.Inv decrypts) {events : List (ExportEvent γ)}
    (hu : r.UnsharedRun decrypts events) : (r.run events).Inv decrypts := by
  induction events generalizing r with
  | nil => exact h
  | cons event events ih => exact ih (h.step hu.1) hu.2

theorem inv_start (window : ℤ) (byteCap : ℕ) : (start window byteCap : ExportRun γ).Inv decrypts where
  known k hk := by
    rcases hk with hk | hk | hk | hk
    all_goals cases hk
  distinct := nodup_nil
  once e he := by cases he.1
  heldAs e he := by cases he.1
  asCaptured e he := by cases he.1
  times e he := by cases he
  counted := rfl
  ordered := ⟨[], List.Sublist.refl _, List.Pairwise.nil, rfl, fun e he => by cases he⟩

theorem finish_empty (fuel : ℕ) (x : DecryptedExport) (hfuel : x.held.length ≤ fuel) :
    (DecryptedExport.releaseWhile (fun _ _ => true) fuel x).2.held.keys = [] := by
  induction fuel generalizing x with
  | zero =>
    change x.held.entries.map Prod.fst = []
    rw [eq_nil_of_length_eq_zero (Nat.le_zero.mp hfuel), map_nil]
  | succ fuel ih =>
    unfold DecryptedExport.releaseWhile
    split
    · rename_i hentries
      change x.held.entries.map Prod.fst = []
      rw [hentries, map_nil]
    · rename_i key entry rest hentries
      rw [if_pos rfl]
      refine ih _ ?_
      rw [(release_eq x key entry).1]
      have hget : x.held.get? key = some entry :=
        OrderedMap.get?_eq_some_iff.mpr (by rw [hentries]; exact mem_cons_self)
      have hlength := (entries_perm_erase hget).length_eq
      rw [length_cons] at hlength
      change (x.held.erase key).entries.length ≤ fuel
      change x.held.entries.length ≤ fuel + 1 at hfuel
      omega

theorem packets_run (events : List (ExportEvent γ)) (r : ExportRun γ) :
    (r.run events).packets.map Prod.snd = r.packets.map Prod.snd ++ capturedIn events := by
  induction events generalizing r with
  | nil => simp [run, capturedIn]
  | cons event events ih =>
    change ((r.step event).run events).packets.map Prod.snd = _
    rw [ih]
    cases event with
    | captured packet connection => simp [step, capturedIn]
    | srtpDecrypted rtp => rfl
    | rtcpSeen src => rfl
    | sipDecrypted connection src dst timestamp message source => rfl
    | ready => rfl
    | finish => rfl
    | discard => rfl

/-- In every run, a packet that is neither SRTP nor of a connection that decrypts is held, or written
once as it was captured, or counted as discarded, and at the end of the input none is held; frames
leave in order, but for those counted: if no two connections share endpoints of which only one
decrypts. -/
theorem export_conserves (window : ℤ) (byteCap : ℕ) (events : List (ExportEvent γ))
    (hunshared : UnsharedRun (· ∈ decryptedIn events) (start window byteCap) events) :
    ((start window byteCap).run events).packets.map Prod.snd = capturedIn events ∧
    Conserved (· ∈ decryptedIn events) ((start window byteCap).run events) ∧
    (((start window byteCap).run events).step .finish).state.held.keys = [] :=
  ⟨packets_run events _, ((inv_start window byteCap).run hunshared).conserved,
    finish_empty _ _ le_rfl⟩

def capturedSegment (timestamp : DateTime) (src dst : SocketAddr) (seq : BitVec 32)
    (payload : List UInt8) : CapturedPacket :=
  let address : IpAddr → List UInt8
    | .v4 bits => toBeBytes 4 bits.toNat
    | .v6 bits => toBeBytes 16 bits.toNat
  let data := [0x45, 0] ++ toBeBytes 2 (40 + payload.length) ++ [0, 0, 0x40, 0, 64, 6, 0, 0] ++
    address src.1 ++ address dst.1 ++ toBeBytes 2 src.2 ++ toBeBytes 2 dst.2 ++
    toBeBytes 4 seq.toNat ++ [0, 0, 0, 0, 0x50, 0x18, 0xff, 0xff, 0, 0, 0, 0] ++ payload
  ⟨timestamp, data, data.length, data.length, some 0, none⟩

def phoneSocket : SocketAddr := (.v4 0x0a000001, 40000)

def proxySocket : SocketAddr := (.v4 0x0a000002, 5061)

def otherSocket : SocketAddr := (.v4 0x0a000003, 5061)

def tlsPayload : List UInt8 := [23, 3, 3, 0, 2, 0xaa, 0xbb]

def twoConnections (server : SocketAddr) : List (ExportEvent ℕ) :=
  [.captured (capturedSegment 0 phoneSocket proxySocket 100 tlsPayload) 0,
    .sipDecrypted 0 phoneSocket proxySocket 0 [0x42, 0x59, 0x45] .tls,
    .captured (capturedSegment 9 phoneSocket server 700 tlsPayload) 1,
    .finish]

/-- The second connection is to another server: its segment is written behind the message. -/
theorem export_conserves_otherServer :
    Conserved (· ∈ decryptedIn (twoConnections otherSocket))
      ((start 5 1000).run (twoConnections otherSocket)) ∧
    ((start 5 1000).run (twoConnections otherSocket)).written.map Prod.fst =
      [toLex (0, 1), toLex (9, 2)] := by
  refine ⟨(export_conserves 5 1000 (twoConnections otherSocket) ?_).2.1, by decide +kernel⟩
  refine ⟨(by intro h; cases h), (by intro h; cases h), (by intro h; cases h), fun _ => ?_, trivial⟩
  decide +kernel

/-- The second connection reuses the endpoints of the first, and its segment is lost. -/
theorem not_conserved_reused :
    ¬Conserved (· ∈ decryptedIn (twoConnections proxySocket))
      ((start 5 1000).run (twoConnections proxySocket)) := by
  intro h
  have honce := h.once (toLex (9, 2), capturedSegment 9 phoneSocket proxySocket 700 tlsPayload, 1)
    ⟨by decide +kernel, by decide +kernel, .inr (by decide +kernel)⟩
  revert honce
  decide +kernel

end ExportRun

end Sipnab
