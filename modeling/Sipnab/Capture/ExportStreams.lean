import Sipnab.Capture.ExportConservation

/-!
# The streams of a decrypted connection

The messages of a direction are written as segments that run on from its first sequence number. A
reader of the file gets exactly these back, if every captured segment of the connection was still
held when its first message was decrypted.
-/

namespace Sipnab

open DecryptedExport List Option OrderedMap

/-- The segment of a direction that a frame carries: its number and its bytes. -/
def segmentIn (src dst : SocketAddr) (frame : ExportFrame) : Option (BitVec 32 × List UInt8) :=
  (TcpView.of frame.packet).bind (fun v =>
    if v.src = src ∧ v.dst = dst then some (v.seq, v.payload frame.packet) else none)

def layout (base : BitVec 32) : List (List UInt8) → List (BitVec 32 × List UInt8)
  | [] => []
  | m :: ms => (base, m) :: layout (base + BitVec.ofNat 32 m.length) ms

def layoutEnd (base : BitVec 32) : List (List UInt8) → BitVec 32
  | [] => base
  | m :: ms => layoutEnd (base + BitVec.ofNat 32 m.length) ms

variable (base : BitVec 32) (a : SocketAddr) (ms : List (List UInt8)) (b : SocketAddr)
  (m : List UInt8)

theorem layout_concat : layout base (ms ++ [m]) = layout base ms ++ [(layoutEnd base ms, m)] := by
  induction ms generalizing base with
  | nil => rfl
  | cons first ms ih => rw [cons_append, layout, ih, layout, layoutEnd, cons_append]

theorem layoutEnd_concat :
    layoutEnd base (ms ++ [m]) = layoutEnd base ms + BitVec.ofNat 32 m.length := by
  induction ms generalizing base with
  | nil => rfl
  | cons first ms ih => rw [cons_append, layoutEnd, ih, layoutEnd]

/-- In the order of their numbers, the segments are the messages, one behind the other. -/
def Reassembles (segments : List (BitVec 32 × List UInt8)) (messages : List (List UInt8)) : Prop :=
  ∃ base, segments.Perm (layout base messages)

theorem SocketAddr.le_total : SocketAddr.le a b = true ∨ SocketAddr.le b a = true := by
  obtain ⟨a | a, p⟩ := a <;> obtain ⟨b | b, q⟩ := b
  all_goals simp only [SocketAddr.le, BitVec.lt_def, ← BitVec.toNat_inj, decide_eq_true_eq, or_true,
    true_or]
  all_goals omega

theorem SocketAddr.le_antisymm {a b : SocketAddr} (hab : SocketAddr.le a b = true)
    (hba : SocketAddr.le b a = true) : a = b := by
  obtain ⟨a | a, p⟩ := a <;> obtain ⟨b | b, q⟩ := b
  all_goals simp only [SocketAddr.le, BitVec.lt_def, ← BitVec.toNat_inj, decide_eq_true_eq,
    Bool.false_eq_true] at hab hba
  all_goals
    obtain rfl := BitVec.eq_of_toNat_eq (x := a) (y := b) (by omega)
    obtain rfl : p = q := by omega
    rfl

theorem connKey_comm : connKey a b = connKey b a := by
  unfold connKey
  by_cases hab : SocketAddr.le a b = true
  · by_cases hba : SocketAddr.le b a = true
    · rw [SocketAddr.le_antisymm hab hba]
    · rw [if_pos hab, if_neg hba]
  · rw [if_neg hab, if_pos ((SocketAddr.le_total a b).resolve_left hab)]

namespace ExportRun

variable {γ : Type*}

def messagesIn (src dst : SocketAddr) (events : List (ExportEvent γ)) : List (List UInt8) :=
  events.filterMap (fun
    | .sipDecrypted _ s d _ message _ => if s = src ∧ d = dst then some message else none
    | _ => none)

/-- A message is decrypted on a direction that was captured, it fits in a packet, and every segment
captured of a connection is still held when its first message is decrypted. The input is not stopped
short. -/
def Timely (r : ExportRun γ) : ExportEvent γ → Prop
  | .sipDecrypted _ src dst _ message _ =>
    (∃ dir ∈ r.state.directions.get? (src, dst), TcpView.Fits dir.ip message) ∧
      (connKey src dst ∉ r.state.decrypted →
        ∀ e ∈ r.packets, segmentConn e.2.1 = some (connKey src dst) → e.1 ∈ r.state.held.keys)
  | .discard => False
  | _ => True

def TimelyRun (r : ExportRun γ) : List (ExportEvent γ) → Prop
  | [] => True
  | event :: events => r.Timely event ∧ TimelyRun (r.step event) events

/-- No captured segment of the connection is in the file, and the direction reassembles to its
messages. -/
structure StreamOnly (src dst : SocketAddr) (messages : List (List UInt8)) (r : ExportRun γ) :
    Prop where
  replaced : ∀ e ∈ r.written, e.2.source = none → segmentConn e.2.packet ≠ some (connKey src dst)
  reassembles : Reassembles (r.written.filterMap (fun e => segmentIn src dst e.2)) messages

/-! ## What holds on the way -/

/-- What a direction keeps: its template is one of its segments. -/
def Sound (key : SocketAddr × SocketAddr) (dir : ExportDirection) : Prop :=
  dir.nextSeq ≠ none ∧ ∃ v, TcpView.of dir.template = some v ∧ v.ip = dir.ip ∧ (v.src, v.dst) = key

/-- Captured frames are held or written under the key they came with. -/
structure Provenance (r : ExportRun γ) : Prop where
  known : ∀ k, k ∈ r.state.held.keys ∨ k ∈ r.written.map Prod.fst → (ofLex k).2 < r.state.arrivals
  apart : ∀ e ∈ r.written, e.1 ∉ r.state.held.keys
  held : ∀ e ∈ r.state.held.entries, e.2.frame.source = none →
    e.2.conn = segmentConn e.2.frame.packet ∧ ∃ c, (e.1, e.2.frame.packet, c) ∈ r.packets
  written : ∀ e ∈ r.written, e.2.source = none → ∃ c, (e.1, e.2.packet, c) ∈ r.packets
  directions : ∀ key dir, r.state.directions.get? key = some dir → Sound key dir

def rebuiltFrames (r : ExportRun γ) : List ExportFrame :=
  (r.state.held.entries.map (fun e => e.2.frame) ++ r.written.map Prod.snd).filter
    (fun f => f.source ≠ none)

/-- The rebuilt segments of a direction are its messages so far, and its counter is behind them. -/
structure Stream (src dst : SocketAddr) (messages : List (List UInt8)) (r : ExportRun γ) :
    Prop where
  laidOut : ∃ base, (r.rebuiltFrames.filterMap (segmentIn src dst)).Perm (layout base messages) ∧
    ∀ dir, r.state.directions.get? (src, dst) = some dir →
      dir.nextSeq = some (layoutEnd base messages)
  unseen : r.state.directions.get? (src, dst) = none → messages = []
  named : messages ≠ [] → connKey src dst ∈ r.state.decrypted
  replaced : connKey src dst ∈ r.state.decrypted → ∀ e ∈ r.written, e.2.source = none →
    segmentConn e.2.packet ≠ some (connKey src dst)

variable {r : ExportRun γ} {src dst : SocketAddr} {messages : List (List UInt8)}

variable {key : FrameKey} {entry : ExportEntry} {s d : SocketAddr} {dir : ExportDirection}
  (x : DecryptedExport)

theorem release_directions (key : FrameKey) (entry : ExportEntry) :
    (x.release key entry).2.directions = x.directions := by
  unfold release
  dsimp only
  split_ifs
  all_goals rfl

theorem release_frame (key : FrameKey) (entry : ExportEntry) :
    (x.release key entry).1 = none ∧ entry.frame.source = none ∨
    (x.release key entry).1 = some entry.frame ∧
      (entry.frame.source = none → ∀ pair, entry.conn = some pair → pair ∉ x.decrypted) := by
  obtain ⟨-, -, -, -, ⟨hreplaced, hnone, -⟩ | ⟨hreplaced, hsome, -⟩⟩ := release_eq x key entry
  · rw [replaced, decide_eq_true_eq] at hreplaced
    exact .inl ⟨hnone, hreplaced.1⟩
  · refine .inr ⟨hsome, fun hsource pair hpair hmem => ?_⟩
    rw [replaced, decide_eq_false_iff_not, hpair] at hreplaced
    exact hreplaced ⟨hsource, by simpa using hmem⟩

theorem Provenance.release (h : r.Provenance) (hget : r.state.held.get? key = some entry) :
    (r.write (((r.state.release key entry).1.map (key, ·)).toList,
      (r.state.release key entry).2)).Provenance := by
  obtain ⟨hheld, harrivals, -⟩ := release_eq r.state key entry
  have hdirections := release_directions r.state key entry
  have hmem := OrderedMap.get?_eq_some_iff.mp hget
  have hkey : key ∈ r.state.held.keys := List.mem_map_of_mem hmem
  have hgone : key ∉ (r.state.held.erase key).keys := by
    intro hk
    obtain ⟨e, he, heq⟩ := List.mem_map.mp hk
    exact (OrderedMap.mem_entries_erase.mp he).2 heq
  have hout : ∀ e ∈ ((r.state.release key entry).1.map (key, ·)).toList,
      e = (key, entry.frame) := by
    rcases release_frame r.state key entry with ⟨hframe, -⟩ | ⟨hframe, -⟩
    · rw [hframe]
      simp
    · rw [hframe]
      simp
  generalize (r.state.release key entry).2 = x at *
  generalize ((r.state.release key entry).1.map (key, ·)).toList = out at *
  refine ⟨fun k hk => ?_, fun e he => ?_, fun e he hsource => ?_, fun e he hsource => ?_,
    fun k dir hdir => ?_⟩
  · change k ∈ x.held.keys ∨ k ∈ (r.written ++ out).map Prod.fst at hk
    change _ < x.arrivals
    rw [hheld, map_append, mem_append] at hk
    rw [harrivals]
    rcases hk with hk | hk | hk
    · exact h.known k (.inl (mem_keys_erase hk))
    · exact h.known k (.inr hk)
    · obtain ⟨e, he, rfl⟩ := List.mem_map.mp hk
      rw [hout e he]
      exact h.known key (.inl hkey)
  · change e.1 ∉ x.held.keys
    rw [hheld]
    rcases mem_append.mp he with hold | hnew
    · exact fun hk => h.apart e hold (mem_keys_erase hk)
    · rw [hout e hnew]
      exact hgone
  · change e ∈ x.held.entries at he
    rw [hheld] at he
    exact h.held e (OrderedMap.mem_entries_erase.mp he).1 hsource
  · rcases mem_append.mp he with hold | hnew
    · exact h.written e hold hsource
    · rw [hout e hnew] at hsource ⊢
      exact (h.held _ hmem hsource).2
  · change x.directions.get? k = some dir at hdir
    rw [hdirections] at hdir
    exact h.directions k dir hdir

theorem Provenance.hold (h : r.Provenance) {x : DecryptedExport} {entry : ExportEntry}
    (hx : Holds r.state x entry)
    (hdirections : ∀ key dir, x.directions.get? key = some dir → Sound key dir)
    (new : Option (CapturedPacket × γ))
    (hnew : entry.frame.source = none → entry.conn = segmentConn entry.frame.packet ∧
      ∃ c, new = some (entry.frame.packet, c)) :
    ({ r with
      state := x
      packets := r.packets ++ (new.map (r.state.nextKey entry.frame, ·)).toList } :
      ExportRun γ).Provenance := by
  have hkey : (ofLex (r.state.nextKey entry.frame)).2 = r.state.arrivals := rfl
  generalize hk : r.state.nextKey entry.frame = key at *
  have hnotheld : key ∉ r.state.held.keys := by
    intro hmem
    have hlt := h.known key (.inl hmem)
    omega
  have hnotwritten : key ∉ r.written.map Prod.fst := by
    intro hmem
    have hlt := h.known key (.inr hmem)
    omega
  have hheld : x.held = r.state.held.insert key entry := hk ▸ hx.held
  have hperm : (r.state.held.insert key entry).keys.Perm (key :: r.state.held.keys) :=
    keys_insert_of_not_mem hnotheld entry
  refine ⟨fun k hmem => ?_, fun e he => ?_, fun e he hsource => ?_, fun e he hsource => ?_,
    hdirections⟩
  · change k ∈ x.held.keys ∨ k ∈ r.written.map Prod.fst at hmem
    change _ < x.arrivals
    rw [hheld, hperm.mem_iff, mem_cons] at hmem
    rw [hx.arrivals]
    rcases hmem with (rfl | hmem) | hmem
    · omega
    · exact Nat.lt_succ_of_lt (h.known k (.inl hmem))
    · exact Nat.lt_succ_of_lt (h.known k (.inr hmem))
  · change e.1 ∉ x.held.keys
    rw [hheld, hperm.mem_iff, mem_cons, not_or]
    refine ⟨?_, h.apart e he⟩
    rintro rfl
    exact hnotwritten (List.mem_map_of_mem he)
  · change e ∈ x.held.entries at he
    rw [hheld, mem_entries_insert] at he
    rcases he with rfl | ⟨-, hold⟩
    · obtain ⟨hconn, c, hc⟩ := hnew hsource
      refine ⟨hconn, c, mem_append_right _ ?_⟩
      rw [hc]
      simp
    · obtain ⟨hconn, c, hc⟩ := h.held e hold hsource
      exact ⟨hconn, c, mem_append_left _ hc⟩
  · obtain ⟨c, hc⟩ := h.written e he hsource
    exact ⟨c, mem_append_left _ hc⟩

/-! ## The rebuilt frames -/

theorem rebuiltFrames_hold (h : r.Provenance) {x : DecryptedExport} (hx : Holds r.state x entry)
    (packets : List (FrameKey × CapturedPacket × γ)) :
    ({ r with state := x, packets := packets } : ExportRun γ).rebuiltFrames.Perm
      ([entry.frame].filter (fun f => f.source ≠ none) ++ r.rebuiltFrames) := by
  have hfresh : r.state.nextKey entry.frame ∉ r.state.held.keys := by
    intro hmem
    exact lt_irrefl _ (h.known _ (.inl hmem))
  have hsame : (r.state.held.erase (r.state.nextKey entry.frame)).entries =
      r.state.held.entries := by
    refine filter_eq_self.mpr (fun e he => ?_)
    rw [decide_eq_true_eq]
    intro heq
    exact hfresh (heq ▸ List.mem_map_of_mem he)
  have hperm := entries_insert_perm r.state.held (r.state.nextKey entry.frame) entry
  rw [hsame, ← hx.held] at hperm
  have hframes := (hperm.map (fun e => e.2.frame)).append_right (r.written.map Prod.snd)
  unfold rebuiltFrames
  rw [← filter_append]
  exact hframes.filter _

theorem rebuiltFrames_release (hget : r.state.held.get? key = some entry) :
    (r.write (((r.state.release key entry).1.map (key, ·)).toList,
      (r.state.release key entry).2)).rebuiltFrames.Perm r.rebuiltFrames := by
  obtain ⟨hheld, -⟩ := release_eq r.state key entry
  have hperm := (entries_perm_erase hget).map (fun e => e.2.frame)
  have hbefore := (hperm.append_right (r.written.map Prod.snd)).filter (fun f => f.source ≠ none)
  refine List.Perm.trans ?_ hbefore.symm
  unfold rebuiltFrames write
  rw [hheld, map_append, map_cons, cons_append]
  rcases release_frame r.state key entry with ⟨hframe, hsource⟩ | ⟨hframe, -⟩
  · rw [hframe, filter_cons_of_neg (by simpa using hsource)]
    simp
  · rw [hframe, ← append_assoc]
    exact (perm_append_singleton _ _).filter _

theorem segmentIn_eq_none {frame : ExportFrame} (h : TcpView.of frame.packet = none) :
    segmentIn src dst frame = none := by
  unfold segmentIn
  rw [h, bind_none]

theorem not_segment_of_rebuildUdp {packet : CapturedPacket} {payload frame : List UInt8}
    (h : rebuildUdp packet payload = some frame) :
    TcpView.of packet = none ∧ TcpView.of (rebuiltPacket packet frame) = none := by
  obtain ⟨ip, hip, h⟩ := bind_eq_some_iff.mp h
  dsimp only at h
  split_ifs at h with hwhole hshort
  cases h
  rw [not_or, not_not] at hwhole
  have hproto : protoUdp ≠ protoTcp := by decide
  refine ⟨TcpView.of_eq_none hip (by rw [hwhole.1]; exact hproto), ?_⟩
  refine TcpView.of_eq_none (IpView.of_assemble hip (by decide) ?_ rfl rfl) hproto
  simp only [length_append, length_toBeBytes, length_cons, length_nil]
  rw [length_bytesAt (by omega)]
  omega

theorem segmentIn_messageFrame (hsound : Sound (s, d) dir) {message : List UInt8}
    (hfits : TcpView.Fits dir.ip message) (timestamp : DateTime) (source : Source) :
    segmentIn src dst (x.messageFrame dir s d timestamp message source) =
      if s = src ∧ d = dst then some (dir.nextSeq.getD 0, message) else none := by
  obtain ⟨-, v, hv, hip, hkey⟩ := hsound
  obtain ⟨rfl, rfl⟩ := Prod.mk.inj hkey
  rw [← hip] at hfits
  have hoffset : (x.messageFrame dir v.src v.dst timestamp message source).packet.ipOffset =
      dir.template.ipOffset := rfl
  have hdata : (x.messageFrame dir v.src v.dst timestamp message source).packet.data =
      buildTcp dir.template v.ip (v.src.2, v.dst.2) (dir.nextSeq.getD 0)
        (((x.directions.get? (v.dst, v.src)).bind (·.nextSeq)).getD 0) message := by
    rw [hip]
    rfl
  obtain ⟨w, hw, hsrc, hdst, hseq, hpayload⟩ := TcpView.of_buildTcp hv hfits hoffset hdata
  unfold segmentIn
  rw [hw, bind_some, hsrc, hdst, hseq, hpayload]

variable (window : ℤ) (packet : CapturedPacket) (byteCap : ℕ)

theorem get?_captured (key : SocketAddr × SocketAddr) {v : TcpView}
    (hv : TcpView.of packet = some v) :
    (x.captured packet).directions.get? key =
      if key = (v.src, v.dst) then
        some { (x.directions.get? (v.src, v.dst)).getD ⟨packet, v.ip, none⟩ with
          nextSeq := some (((x.directions.get? (v.src, v.dst)).getD
            ⟨packet, v.ip, none⟩).nextSeq.getD (if v.syn then v.seq + 1 else v.seq)) }
      else x.directions.get? key := by
  have htime : (x.noteTime packet.timestamp).directions = x.directions := by
    unfold noteTime
    split_ifs
    · rfl
    · rfl
  change ((x.noteTime packet.timestamp).noteDirection packet).directions.get? key = _
  unfold noteDirection
  rw [hv]
  change ((x.noteTime packet.timestamp).directions.alter _ _).get? key = _
  rw [IndexMap.get?_alter, htime]

theorem captured_directions_of_none {packet : CapturedPacket} (hv : TcpView.of packet = none) :
    (x.captured packet).directions = x.directions := by
  change ((x.noteTime packet.timestamp).noteDirection packet).directions = _
  unfold noteDirection noteTime
  rw [hv]
  split_ifs
  · rfl
  · rfl

theorem captured_decrypted : (x.captured packet).decrypted = x.decrypted := by
  change ((x.noteTime packet.timestamp).noteDirection packet).decrypted = _
  unfold noteDirection noteTime
  split <;> split_ifs <;> rfl

theorem sipDecrypted_directions (hdir : x.directions.get? (s, d) = some dir)
    (timestamp : DateTime) (message : List UInt8) (source : Source) :
    (x.sipDecrypted s d timestamp message source).directions = x.directions.insert (s, d)
      { dir with nextSeq := some (dir.nextSeq.getD 0 + BitVec.ofNat 32 message.length) } := by
  unfold DecryptedExport.sipDecrypted
  rw [hdir]
  rfl

theorem sipDecrypted_decrypted (hdir : x.directions.get? (s, d) = some dir) (timestamp : DateTime)
    (message : List UInt8) (source : Source) :
    (x.sipDecrypted s d timestamp message source).decrypted = connKey s d :: x.decrypted := by
  unfold DecryptedExport.sipDecrypted
  rw [hdir]
  rfl

theorem Provenance.captured (h : r.Provenance) (packet : CapturedPacket) (connection : γ) :
    (r.step (.captured packet connection)).Provenance := by
  refine h.hold (r.state.captured_holds packet) (fun key dir hdir => ?_) (some (packet, connection))
    (fun _ => ⟨rfl, connection, rfl⟩)
  cases hv : TcpView.of packet with
  | none =>
    rw [captured_directions_of_none _ hv] at hdir
    exact h.directions key dir hdir
  | some v =>
    rw [get?_captured _ _ _ hv] at hdir
    by_cases hkey : key = (v.src, v.dst)
    · rw [if_pos hkey] at hdir
      cases hdir
      refine ⟨(by intro h; cases h), ?_⟩
      cases hold : r.state.directions.get? (v.src, v.dst) with
      | none => exact ⟨v, hv, rfl, hkey.symm⟩
      | some dir =>
        obtain ⟨-, w, hw, hip, hwkey⟩ := h.directions _ dir hold
        exact ⟨w, hw, hip, hwkey.trans hkey.symm⟩
    · rw [if_neg hkey] at hdir
      exact h.directions key dir hdir

theorem Provenance.sipDecrypted (h : r.Provenance)
    (hdir : r.state.directions.get? (s, d) = some dir) (connection : γ) (timestamp : DateTime)
    (message : List UInt8) (source : Source) :
    (r.step (.sipDecrypted connection s d timestamp message source)).Provenance := by
  have hhold := h.hold (r.state.sipDecrypted_holds hdir timestamp message source)
    (fun key dir' hdir' => ?_) none (fun hsource => by cases hsource)
  · rw [map_none, toList_none, append_nil] at hhold
    exact hhold
  · rw [sipDecrypted_directions _ hdir, IndexMap.get?_insert] at hdir'
    split_ifs at hdir' with hkey
    · cases hdir'
      obtain ⟨-, v, hv, hip, hvkey⟩ := h.directions _ dir hdir
      exact ⟨(by intro h; cases h), v, hv, hip, hvkey.trans hkey.symm⟩
    · exact h.directions key dir' hdir'

theorem Provenance.srtpDecrypted (h : r.Provenance) (rtp : List UInt8) :
    (r.step (.srtpDecrypted rtp)).Provenance := by
  unfold step DecryptedExport.srtpDecrypted
  dsimp only
  cases hrebuild : r.state.srtpRebuild rtp with
  | none => exact ⟨h.known, h.apart, h.held, h.written, h.directions⟩
  | some found =>
    obtain ⟨key, entry, frame⟩ := found
    obtain ⟨hget, -⟩ := srtpRebuild_eq_some hrebuild
    dsimp only
    generalize hnew : (⟨⟨rebuiltPacket entry.frame.packet frame, some .srtp⟩, none, false⟩ :
      ExportEntry) = new
    have hperm := keys_insert_of_mem hget new
    refine ⟨fun k hk => ?_, fun e he => ?_, fun e he hsource => ?_, h.written, h.directions⟩
    · change k ∈ (r.state.held.insert key new).keys ∨ _ at hk
      rw [hperm.mem_iff] at hk
      exact h.known k hk
    · change e.1 ∉ (r.state.held.insert key new).keys
      rw [hperm.mem_iff]
      exact h.apart e he
    · change e ∈ (r.state.held.insert key new).entries at he
      rw [mem_entries_insert] at he
      rcases he with rfl | ⟨-, hold⟩
      · rw [← hnew] at hsource
        cases hsource
      · exact h.held e hold hsource

/-! ## The streams -/

section

variable (h : r.Stream src dst messages)
include h

theorem Stream.release (hp : r.Provenance) (hget : r.state.held.get? key = some entry) :
    (r.write (((r.state.release key entry).1.map (key, ·)).toList,
      (r.state.release key entry).2)).Stream src dst messages := by
  obtain ⟨-, -, hdecrypted, -⟩ := release_eq r.state key entry
  have hdirections := release_directions r.state key entry
  obtain ⟨base, hperm, hnext⟩ := h.laidOut
  refine ⟨⟨base, ((rebuiltFrames_release hget).filterMap _).trans hperm, ?_⟩, ?_, ?_, ?_⟩
  · change ∀ dir, (r.state.release key entry).2.directions.get? (src, dst) = some dir → _
    rw [hdirections]
    exact hnext
  · change (r.state.release key entry).2.directions.get? (src, dst) = none → _
    rw [hdirections]
    exact h.unseen
  · change _ → connKey src dst ∈ (r.state.release key entry).2.decrypted
    rw [hdecrypted]
    exact h.named
  · change connKey src dst ∈ (r.state.release key entry).2.decrypted → _
    rw [hdecrypted]
    intro hmem e he hsource
    rcases mem_append.mp he with hold | hnew
    · exact h.replaced hmem e hold hsource
    · rcases release_frame r.state key entry with ⟨hframe, -⟩ | ⟨hframe, hnot⟩
      · rw [hframe] at hnew
        cases hnew
      · rw [hframe] at hnew
        obtain rfl := mem_singleton.mp hnew
        obtain ⟨hconn, -⟩ := hp.held _ (OrderedMap.get?_eq_some_iff.mp hget) hsource
        intro hsegment
        exact hnot hsource _ (hconn.trans hsegment) hmem

theorem Stream.captured (hp : r.Provenance) (packet : CapturedPacket) (connection : γ) :
    (r.step (.captured packet connection)).Stream src dst messages := by
  have hdecrypted := captured_decrypted r.state packet
  obtain ⟨base, hperm, hnext⟩ := h.laidOut
  have hframes : (r.step (.captured packet connection)).rebuiltFrames.Perm r.rebuiltFrames :=
    rebuiltFrames_hold hp (r.state.captured_holds packet) _
  have hsegments := hframes.filterMap (segmentIn src dst)
  refine ⟨?_, ?_, ?_, ?_⟩
  · cases hv : TcpView.of packet with
    | none =>
      refine ⟨base, hsegments.trans hperm, ?_⟩
      change ∀ dir, (r.state.captured packet).directions.get? (src, dst) = some dir → _
      rw [captured_directions_of_none _ hv]
      exact hnext
    | some v =>
      by_cases hkey : (src, dst) = (v.src, v.dst)
      · cases hold : r.state.directions.get? (src, dst) with
        | none =>
          -- the first packet of the direction: it sets the base
          have hempty := h.unseen hold
          subst hempty
          refine ⟨if v.syn then v.seq + 1 else v.seq, hsegments.trans hperm, fun dir hdir => ?_⟩
          change (r.state.captured packet).directions.get? (src, dst) = some dir at hdir
          rw [get?_captured _ _ _ hv, if_pos hkey, ← hkey, hold] at hdir
          cases hdir
          rfl
        | some old =>
          refine ⟨base, hsegments.trans hperm, fun dir hdir => ?_⟩
          change (r.state.captured packet).directions.get? (src, dst) = some dir at hdir
          rw [get?_captured _ _ _ hv, if_pos hkey, ← hkey, hold] at hdir
          cases hdir
          have hseq := hnext old hold
          simp [hseq]
      · refine ⟨base, hsegments.trans hperm, fun dir hdir => ?_⟩
        change (r.state.captured packet).directions.get? (src, dst) = some dir at hdir
        rw [get?_captured _ _ _ hv, if_neg hkey] at hdir
        exact hnext dir hdir
  · intro hnone
    refine h.unseen ?_
    change (r.state.captured packet).directions.get? (src, dst) = none at hnone
    cases hv : TcpView.of packet with
    | none =>
      rw [captured_directions_of_none _ hv] at hnone
      exact hnone
    | some v =>
      rw [get?_captured _ _ _ hv] at hnone
      by_cases hkey : (src, dst) = (v.src, v.dst)
      · rw [if_pos hkey] at hnone
        cases hnone
      · rw [if_neg hkey] at hnone
        exact hnone
  · change _ → connKey src dst ∈ (r.state.captured packet).decrypted
    rw [hdecrypted]
    exact h.named
  · change connKey src dst ∈ (r.state.captured packet).decrypted → _
    rw [hdecrypted]
    exact h.replaced

theorem Stream.srtpDecrypted (rtp : List UInt8) :
    (r.step (.srtpDecrypted rtp)).Stream src dst messages := by
  unfold step DecryptedExport.srtpDecrypted
  dsimp only
  cases hrebuild : r.state.srtpRebuild rtp with
  | none => exact ⟨h.laidOut, h.unseen, h.named, h.replaced⟩
  | some found =>
    obtain ⟨key, entry, frame⟩ := found
    obtain ⟨hget, hudp⟩ := srtpRebuild_eq_some hrebuild
    obtain ⟨hold, hnone⟩ := not_segment_of_rebuildUdp hudp
    obtain ⟨base, hperm, hnext⟩ := h.laidOut
    dsimp only
    generalize hnew : (⟨⟨rebuiltPacket entry.frame.packet frame, some .srtp⟩, none, false⟩ :
      ExportEntry) = new
    refine ⟨⟨base, List.Perm.trans ?_ hperm, hnext⟩, h.unseen, h.named, h.replaced⟩
    -- neither the datagram nor what it became is a segment
    have hbefore := (((entries_perm_erase hget).map (fun e => e.2.frame)).append_right
      (r.written.map Prod.snd)).filter (fun f => f.source ≠ none)
    have hafter := (((entries_insert_perm r.state.held key new).map
      (fun e => e.2.frame)).append_right (r.written.map Prod.snd)).filter (fun f => f.source ≠ none)
    refine (hafter.filterMap (segmentIn src dst)).trans
      (List.Perm.trans (List.Perm.of_eq ?_) (hbefore.filterMap (segmentIn src dst)).symm)
    have hskip : ∀ (f : ExportFrame) (rest : List ExportFrame), segmentIn src dst f = none →
        ((f :: rest).filter (fun f => f.source ≠ none)).filterMap (segmentIn src dst) =
          (rest.filter (fun f => f.source ≠ none)).filterMap (segmentIn src dst) := by
      intro f rest hf
      rw [filter_cons]
      split_ifs
      · rw [filterMap_cons_none hf]
      · rfl
    rw [map_cons, map_cons, cons_append, cons_append,
      hskip _ _ (segmentIn_eq_none (by rw [← hnew]; exact hnone)),
      hskip _ _ (segmentIn_eq_none hold)]

theorem Stream.sipDecrypted (hp : r.Provenance) (connection : γ) (s d : SocketAddr)
    (timestamp : DateTime) (message : List UInt8) (source : Source)
    (hok : r.Timely (.sipDecrypted connection s d timestamp message source)) :
    (r.step (.sipDecrypted connection s d timestamp message source)).Stream src dst
      (messages ++ if s = src ∧ d = dst then [message] else []) := by
  obtain ⟨⟨dir, hdir, hfits⟩, hheld⟩ := hok
  rw [mem_def] at hdir
  have hsound := hp.directions _ dir hdir
  obtain ⟨base, hperm, hnext⟩ := h.laidOut
  have hframes : (r.step (.sipDecrypted connection s d timestamp message source)).rebuiltFrames.Perm
      (r.state.messageFrame dir s d timestamp message source :: r.rebuiltFrames) :=
    rebuiltFrames_hold hp (r.state.sipDecrypted_holds hdir timestamp message source) _
  have hsegments := hframes.filterMap (segmentIn src dst)
  have hdirections := sipDecrypted_directions r.state hdir timestamp message source
  have hdecrypted := sipDecrypted_decrypted r.state hdir timestamp message source
  have hsegment : segmentIn src dst (r.state.messageFrame dir s d timestamp message source) =
      if s = src ∧ d = dst then some (dir.nextSeq.getD 0, message) else none :=
    segmentIn_messageFrame r.state hsound hfits timestamp source
  refine ⟨⟨base, ?_, fun dir' hdir' => ?_⟩, fun hnone => ?_, fun hne => ?_, fun hmem e he hcap => ?_⟩
  · refine hsegments.trans ?_
    by_cases hsame : s = src ∧ d = dst
    · rw [if_pos hsame] at hsegment ⊢
      obtain ⟨rfl, rfl⟩ := hsame
      rw [filterMap_cons_some hsegment, layout_concat, hnext dir hdir, getD_some]
      exact (perm_append_singleton _ _).symm.trans (hperm.append_right _)
    · rw [if_neg hsame] at hsegment ⊢
      rw [filterMap_cons_none hsegment, append_nil]
      exact hperm
  · change (r.state.sipDecrypted s d timestamp message source).directions.get? (src, dst) =
      some dir' at hdir'
    rw [hdirections, IndexMap.get?_insert] at hdir'
    by_cases hsame : s = src ∧ d = dst
    · obtain ⟨rfl, rfl⟩ := hsame
      rw [if_pos rfl] at hdir'
      cases hdir'
      rw [if_pos ⟨rfl, rfl⟩, layoutEnd_concat, hnext dir hdir]
      rfl
    · rw [if_neg (fun heq => hsame (by cases heq; exact ⟨rfl, rfl⟩))] at hdir'
      rw [if_neg hsame, append_nil]
      exact hnext dir' hdir'
  · change (r.state.sipDecrypted s d timestamp message source).directions.get? (src, dst) =
      none at hnone
    rw [hdirections, IndexMap.get?_insert] at hnone
    by_cases hsame : s = src ∧ d = dst
    · rw [if_pos (by rw [hsame.1, hsame.2])] at hnone
      cases hnone
    · rw [if_neg (fun heq => hsame (by cases heq; exact ⟨rfl, rfl⟩))] at hnone
      rw [if_neg hsame, append_nil]
      exact h.unseen hnone
  · change _ ∈ (r.state.sipDecrypted s d timestamp message source).decrypted
    rw [hdecrypted]
    by_cases hsame : s = src ∧ d = dst
    · rw [hsame.1, hsame.2]
      exact mem_cons_self
    · rw [if_neg hsame, append_nil] at hne
      exact mem_cons_of_mem _ (h.named hne)
  · change _ ∈ (r.state.sipDecrypted s d timestamp message source).decrypted at hmem
    rw [hdecrypted, mem_cons] at hmem
    by_cases hold : connKey src dst ∈ r.state.decrypted
    · exact h.replaced hold e he hcap
    · -- the first message of the connection: its segments are all held, so none is in the file
      have hpair := hmem.resolve_right hold
      intro hconn
      obtain ⟨c, hc⟩ := hp.written e he hcap
      rw [hpair] at hold hconn
      exact hp.apart e he (hheld hold _ hc hconn)

end

theorem Provenance.releaseWhile (h : r.Provenance) (hs : r.Stream src dst messages)
    (due : DecryptedExport → FrameKey → Bool) (fuel : ℕ) :
    (r.write (DecryptedExport.releaseWhile due fuel r.state)).Provenance ∧
      (r.write (DecryptedExport.releaseWhile due fuel r.state)).Stream src dst messages :=
  write_releaseWhile (P := fun r : ExportRun γ => r.Provenance ∧ r.Stream src dst messages)
    (fun _ _ _ hget hr => ⟨hr.1.release hget, hr.2.release hr.1 hget⟩) due fuel ⟨h, hs⟩

theorem Stream.step (h : r.Stream src dst messages) (hp : r.Provenance) {event : ExportEvent γ}
    (hok : r.Timely event) :
    (r.step event).Provenance ∧
      (r.step event).Stream src dst (messages ++ messagesIn src dst [event]) := by
  have hsame : ∀ r' : ExportRun γ, r'.Provenance ∧ r'.Stream src dst messages →
      messagesIn src dst [event] = [] →
      r'.Provenance ∧ r'.Stream src dst (messages ++ messagesIn src dst [event]) := by
    intro r' hr' hnone
    rw [hnone, append_nil]
    exact hr'
  cases event with
  | captured packet connection =>
    exact hsame _ ⟨hp.captured packet connection, h.captured hp packet connection⟩ rfl
  | srtpDecrypted rtp => exact hsame _ ⟨hp.srtpDecrypted rtp, h.srtpDecrypted rtp⟩ rfl
  | rtcpSeen s =>
    refine hsame _ ?_ rfl
    unfold ExportRun.step DecryptedExport.rtcpSeen
    dsimp only
    split_ifs
    · exact ⟨⟨hp.known, hp.apart, hp.held, hp.written, hp.directions⟩,
        ⟨h.laidOut, h.unseen, h.named, h.replaced⟩⟩
    · exact ⟨hp, h⟩
  | sipDecrypted connection s d timestamp message source =>
    obtain ⟨⟨dir, hdir, -⟩, -⟩ := id hok
    rw [mem_def] at hdir
    refine ⟨hp.sipDecrypted hdir connection timestamp message source, ?_⟩
    have hmessages : messagesIn src dst
        [ExportEvent.sipDecrypted connection s d timestamp message source] =
        if s = src ∧ d = dst then [message] else [] := by
      unfold messagesIn
      split_ifs with hsame
      · simp [hsame]
      · simp [hsame]
    rw [hmessages]
    exact h.sipDecrypted hp connection s d timestamp message source hok
  | ready => exact hsame _ (hp.releaseWhile h _ _) rfl
  | finish => exact hsame _ (hp.releaseWhile h _ _) rfl
  | discard => exact hok.elim

theorem Stream.run (h : r.Stream src dst messages) (hp : r.Provenance)
    {events : List (ExportEvent γ)} (hok : r.TimelyRun events) :
    (r.run events).Provenance ∧
      (r.run events).Stream src dst (messages ++ messagesIn src dst events) := by
  induction events generalizing r messages with
  | nil =>
    rw [messagesIn, filterMap_nil, append_nil]
    exact ⟨hp, h⟩
  | cons event events ih =>
    obtain ⟨hp', h'⟩ := h.step hp hok.1
    have hsplit : messagesIn src dst (event :: events) =
        messagesIn src dst [event] ++ messagesIn src dst events := by
      unfold messagesIn
      rw [← filterMap_append, singleton_append]
    rw [hsplit, ← append_assoc]
    exact ih h' hp' hok.2

theorem provenance_start :
    (start window byteCap : ExportRun γ).Provenance where
  known k hk := by
    rcases hk with hk | hk
    all_goals cases hk
  apart e he := by cases he
  held e he := by cases he
  written e he := by cases he
  directions key dir hdir := by cases hdir

theorem stream_start (src dst : SocketAddr) :
    (start window byteCap : ExportRun γ).Stream src dst [] where
  laidOut := ⟨0, List.Perm.refl _, fun dir hdir => by cases hdir⟩
  unseen _ := rfl
  named hne := absurd rfl hne
  replaced hmem := by cases hmem

theorem Stream.streamOnly (h : r.Stream src dst messages) (hempty : r.state.held.keys = [])
    (hmem : connKey src dst ∈ r.state.decrypted) : r.StreamOnly src dst messages := by
  have hreplaced := h.replaced hmem
  refine ⟨hreplaced, ?_⟩
  obtain ⟨base, hperm, -⟩ := h.laidOut
  refine ⟨base, List.Perm.trans (List.Perm.of_eq ?_) hperm⟩
  have hentries : r.state.held.entries = [] := map_eq_nil_iff.mp hempty
  unfold rebuiltFrames
  rw [hentries, map_nil, nil_append, filterMap_filter, filterMap_map]
  refine filterMap_congr (fun e he => ?_)
  -- a captured frame is of another connection, so it is passed over either way
  by_cases hsource : e.2.source = none
  · have hnone : segmentIn src dst e.2 = none := by
      unfold segmentIn
      cases hv : TcpView.of e.2.packet with
      | none => rfl
      | some v =>
        rw [bind_some, if_neg]
        rintro ⟨rfl, rfl⟩
        exact hreplaced e he hsource (by rw [segmentConn, hv, map_some])
    simp [hsource, hnone]
  · simp [hsource]

/-- In every run in which the segments of a connection are all held when its first message is
decrypted, each direction of a decrypted connection reads in the file as its messages in order, and
as nothing else. -/
theorem export_streams (window : ℤ) (byteCap : ℕ) (events : List (ExportEvent γ))
    (htimely : (start window byteCap).TimelyRun events) (src dst : SocketAddr)
    (hdecrypted : messagesIn src dst events ≠ [] ∨ messagesIn dst src events ≠ []) :
    (((start window byteCap).run events).step .finish).StreamOnly src dst
      (messagesIn src dst events) := by
  obtain ⟨hp, h⟩ := (stream_start window byteCap src dst).run
    (provenance_start window byteCap) htimely
  obtain ⟨-, hback⟩ := (stream_start window byteCap dst src).run
    (provenance_start window byteCap) htimely
  rw [nil_append] at h hback
  obtain ⟨-, hend⟩ := hp.releaseWhile h (fun _ _ => true)
    ((start window byteCap).run events).state.held.length
  obtain ⟨-, hback⟩ := hp.releaseWhile hback (fun _ _ => true)
    ((start window byteCap).run events).state.held.length
  refine hend.streamOnly (finish_empty _ _ le_rfl) ?_
  rcases hdecrypted with hne | hne
  · exact hend.named hne
  · rw [connKey_comm]
    exact hback.named hne

/-- A connection with its handshake at the start, and its first message some nanoseconds later; a
packet of another connection goes by in between. -/
def lateMessage (wait : ℤ) : List (ExportEvent ℕ) :=
  [.captured (capturedSegment 0 phoneSocket proxySocket 100 tlsPayload) 0, .ready,
    .captured (capturedSegment wait phoneSocket otherSocket 700 tlsPayload) 1, .ready,
    .captured (capturedSegment (wait + 1) phoneSocket proxySocket 107 tlsPayload) 0,
    .sipDecrypted 0 phoneSocket proxySocket (wait + 1) [0x42, 0x59, 0x45] .tls, .ready]

/-- The message comes a second after the handshake. -/
theorem export_streams_second :
    (((start 5000000000 67108864).run (lateMessage 1000000000)).step .finish).StreamOnly phoneSocket
      proxySocket [[0x42, 0x59, 0x45]] := by
  refine export_streams 5000000000 67108864 (lateMessage 1000000000) ?_ phoneSocket proxySocket
    (.inl (by decide +kernel))
  refine ⟨trivial, trivial, trivial, trivial, trivial, ⟨?_, ?_⟩, trivial, trivial⟩
  · decide +kernel
  · decide +kernel

/-- The message comes six seconds after the handshake, which was written as captured by then. -/
theorem not_streamOnly_idle :
    ¬(((start 5000000000 67108864).run (lateMessage 6000000000)).step .finish).StreamOnly
      phoneSocket proxySocket (messagesIn phoneSocket proxySocket (lateMessage 6000000000)) := by
  intro h
  exact h.replaced
    (toLex (0, 0), ⟨capturedSegment 0 phoneSocket proxySocket 100 tlsPayload, none⟩)
    (by decide +kernel) rfl (by decide +kernel)

end ExportRun

end Sipnab
