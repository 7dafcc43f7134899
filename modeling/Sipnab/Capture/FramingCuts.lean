import Sipnab.Capture.Continuity
import Sipnab.Lib.FrontCuts

/-!
# Framing a stream that arrives in pieces

The end of the headers that the framer finds stays where it is when more bytes arrive, and so does
the end of a message. A stream whose unconsumed tail is held and put in front of what comes next
therefore gives the same messages for every way of cutting it. The processor holds a tail only when
what it has got looks like SIP, and that takes the whole first line.
-/

namespace Sipnab

open List

theorem findHeaderEnd_append {data : List UInt8} {n : ℕ} (h : findHeaderEnd data = some n)
    (more : List UInt8) : n ≤ data.length ∧ findHeaderEnd (data ++ more) = some n := by
  unfold findHeaderEnd at h ⊢
  cases hcrlf : findInfix [cr, lf, cr, lf] data with
  | some i =>
    have hi := length_le_of_findInfix hcrlf
    rw [findInfix_append hcrlf more]
    simp only [length_cons, length_nil] at hi
    cases hbare : findInfix [lf, lf] data with
    | some j =>
      rw [findInfix_append hbare more]
      simp only [hcrlf, hbare, Option.map_some, Option.some.injEq] at h ⊢
      omega
    | none =>
      simp only [hcrlf, hbare, Option.map_some, Option.map_none, Option.some.injEq] at h
      cases hlater : findInfix [lf, lf] (data ++ more) with
      | none => exact ⟨by omega, by simp [h]⟩
      | some j =>
        have hj := lt_of_findInfix_append hbare hlater
        simp only [length_cons, length_nil] at hj
        simp only [Option.map_some, Option.some.injEq]
        omega
  | none =>
    cases hbare : findInfix [lf, lf] data with
    | none => simp [hcrlf, hbare] at h
    | some j =>
      have hj := length_le_of_findInfix hbare
      simp only [length_cons, length_nil] at hj
      rw [findInfix_append hbare more]
      simp only [hcrlf, hbare, Option.map_some, Option.map_none, Option.some.injEq] at h
      cases hlater : findInfix [cr, lf, cr, lf] (data ++ more) with
      | none => exact ⟨by omega, by simp [h]⟩
      | some i =>
        have hi := lt_of_findInfix_append hcrlf hlater
        simp only [length_cons, length_nil] at hi
        simp only [Option.map_some, Option.some.injEq]
        omega

theorem frontCut_messageEnd : FrontCut messageEnd where
  pos h := by
    obtain ⟨bodyStart, hbody, rfl, -⟩ := messageEnd_eq_some_iff.mp h
    have htwo := two_le_of_findHeaderEnd hbody
    omega
  le h := by
    obtain ⟨-, -, -, -, hlength⟩ := messageEnd_eq_some_iff.mp h
    exact hlength
  stable more h := by
    obtain ⟨bodyStart, hbody, hend, hbound, hlength⟩ := messageEnd_eq_some_iff.mp h
    obtain ⟨hle, hbody'⟩ := findHeaderEnd_append hbody more
    refine messageEnd_eq_some_iff.mpr ⟨bodyStart, hbody', ?_, hbound, ?_⟩
    · rw [take_append_of_le_length hle]
      exact hend
    · rw [length_append]
      omega

theorem frameTcpSip_eq (data : List UInt8) : frameTcpSip data = cutFront messageEnd data := by
  have hloop (rounds pos : ℕ) (rest : List UInt8) :
      frameLoop rounds pos rest = cutLoop messageEnd rounds pos rest := by
    induction rounds generalizing pos rest with
    | zero => rfl
    | succ rounds ih =>
      rw [frameLoop, cutLoop]
      cases messageEnd rest with
      | none => rfl
      | some n =>
        dsimp only
        rw [ih]
  exact hloop data.length 0 data

/-! ## Messages and what is left -/

/-- The messages of a stream, and the bytes behind them. -/
def framed (data : List UInt8) : List (List UInt8) × List UInt8 :=
  ((frameTcpSip data).1.map (slice data), data.drop (frameTcpSip data).2)

theorem framed_append (data more : List UInt8) :
    framed (data ++ more) =
      ((framed data).1 ++ (framed ((framed data).2 ++ more)).1,
        (framed ((framed data).2 ++ more)).2) := by
  have hpieces := cutPieces_eq frontCut_messageEnd (cut_nil frontCut_messageEnd) [data, more]
  simp only [cutPieces, flatten_cons, flatten_nil, nil_append, append_nil,
    ← frameTcpSip_eq] at hpieces
  exact hpieces.symm

theorem framed_left (data : List UInt8) : framed (framed data).2 = ([], (framed data).2) := by
  have hnone : messageEnd (framed data).2 = none := by
    rw [framed, frameTcpSip_eq]
    exact (contiguous_cutFront frontCut_messageEnd data).2.2
  conv_lhs => rw [framed, frameTcpSip_eq, cutFront_of_none hnone]
  rfl

theorem framed_of_some {data : List UInt8} {n : ℕ} (h : messageEnd data = some n) :
    (framed data).2 = (framed (data.drop n)).2 := by
  rw [framed, framed, frameTcpSip_eq, frameTcpSip_eq, cutFront_of_some frontCut_messageEnd h]
  exact drop_drop.symm

/-- Whole messages can be taken off the front until at most `n` bytes are left. -/
inductive LeavesAtMost (n : ℕ) : List UInt8 → Prop
  | left {data : List UInt8} (h : data.length ≤ n) : LeavesAtMost n data
  | message {data : List UInt8} {k : ℕ} (h : messageEnd data = some k)
      (rest : LeavesAtMost n (data.drop k)) : LeavesAtMost n data

theorem leavesAtMost_iff {n : ℕ} {data : List UInt8} :
    LeavesAtMost n data ↔ (framed data).2.length ≤ n := by
  constructor
  · intro h
    induction h with
    | left h =>
      rw [framed, length_drop]
      omega
    | message h _ ih =>
      rw [framed_of_some h]
      exact ih
  · intro h
    induction hlength : data.length using Nat.strong_induction_on generalizing data with
    | h length ih =>
      cases hend : messageEnd data with
      | none =>
        rw [framed, frameTcpSip_eq, cutFront_of_none hend] at h
        exact .left h
      | some k =>
        have hpos := frontCut_messageEnd.pos hend
        have hle := frontCut_messageEnd.le hend
        rw [framed_of_some hend] at h
        exact .message hend (ih _ (by rw [length_drop]; omega) h rfl)

instance (n : ℕ) (data : List UInt8) : Decidable (LeavesAtMost n data) :=
  decidable_of_iff _ leavesAtMost_iff.symm

/-! ## One call -/

namespace PacketProcessor

variable {env : ReassemblyEnv} {now : Instant} {pp : PacketProcessor} {key : TcpStreamKey}
  {p : ParsedPacket} {tail : List UInt8} {flushed : List (List UInt8)} {streamOpen : Bool}

/-- A partial is held where there is one. -/
def partialOf (tail : List UInt8) : Option (List UInt8) := if tail = [] then none else some tail

/-- The messages of a stream, and the partial that is held for it. -/
def delivered (data : List UInt8) : List (List UInt8) × Option (List UInt8) :=
  ((framed data).1, partialOf (framed data).2)

/-- The partial of `key` is the one held longest and a new one has no room. -/
def Crowded (pp : PacketProcessor) (key : TcpStreamKey) : Prop :=
  pp.maxSessions ≤ pp.tcpSipLeftover.length ∧ pp.tcpSipLeftover.keys.head? = some key

/-- What is framed is SIP, and what is left behind its messages can be held. -/
def Holds (env : ReassemblyEnv) (streamOpen : Bool) (buf : List UInt8) : Prop :=
  isSipMessage buf = true ∧
    (LeavesAtMost 0 buf ∨ streamOpen = true ∧ LeavesAtMost env.maxTcpBuffer buf)

/-- The packet leaves the stream of a direction whole. One of the direction finds nothing held for a
stream that has ended or lost bytes, and what it brings is held as far as it is no message yet. One
of another direction does not cost the direction its partial. -/
def Keeps (env : ReassemblyEnv) (now : Instant) (key : TcpStreamKey) (pp : PacketProcessor)
    (p : ParsedPacket) : Prop :=
  let (r, flushed) := pp.tcpReassembler.insert env now p
  let held := pp.tcpSipLeftover.get? key
  if p.streamKey ≠ key then flushed = [] ∨ ¬ (pp.removeLeftover p.streamKey).Crowded key
  else if flushed = [] then r.contains key = true ∨ held = none
  else ((r.takeResync key).2 = true → held = none) ∧
    Holds env (r.contains key) (held.getD [] ++ flushed.flatten)

instance (pp : PacketProcessor) (key : TcpStreamKey) : Decidable (pp.Crowded key) :=
  inferInstanceAs (Decidable (_ ∧ _))

instance (env : ReassemblyEnv) (streamOpen : Bool) (buf : List UInt8) :
    Decidable (Holds env streamOpen buf) := inferInstanceAs (Decidable (_ ∧ (_ ∨ _ ∧ _)))

instance (env : ReassemblyEnv) (now : Instant) (key : TcpStreamKey) (pp : PacketProcessor)
    (p : ParsedPacket) : Decidable (pp.Keeps env now key p) :=
  inferInstanceAs (Decidable (ite _ (_ ∨ ¬ _) (ite _ (_ ∨ _) ((_ → _) ∧ Holds env _ _))))

theorem frameFlushed_own
    (h : Holds env streamOpen ((pp.tcpSipLeftover.get? p.streamKey).getD [] ++ flushed.flatten)) :
    ((pp.frameFlushed env p streamOpen flushed).2.map ParsedPacket.payload,
        (pp.frameFlushed env p streamOpen flushed).1.tcpSipLeftover.get? p.streamKey) =
      delivered ((pp.tcpSipLeftover.get? p.streamKey).getD [] ++ flushed.flatten) := by
  rw [frameFlushed]
  generalize (pp.tcpSipLeftover.get? p.streamKey).getD [] ++ flushed.flatten = buf at h
  obtain ⟨hsip, hleft⟩ := h
  have hmessages : ((frameTcpSip buf).1.map (fun r => { p with payload := slice buf r })).map
      ParsedPacket.payload = (framed buf).1 := by
    rw [List.map_map]
    rfl
  have htail : buf.drop (frameTcpSip buf).2 = (framed buf).2 := rfl
  have hlt : (frameTcpSip buf).2 < buf.length ↔ (framed buf).2 ≠ [] := by
    rw [← htail, Ne, drop_eq_nil_iff, Nat.not_le]
  simp only [hsip, Bool.not_true, Bool.false_eq_true, if_false, hlt, htail, delivered, partialOf]
  by_cases hnone : (framed buf).2 = []
  · rw [if_neg (fun hand => hand.1 hnone), if_neg (not_not_intro hnone), if_pos hnone]
    refine Prod.ext hmessages ?_
    rw [get?_removeLeftover, if_pos rfl]
  · have hhold : streamOpen = true ∧ (framed buf).2.length ≤ env.maxTcpBuffer := by
      rcases hleft with hwhole | ⟨hopen, hroom⟩
      · exact absurd (length_eq_zero_iff.mp (Nat.le_zero.mp (leavesAtMost_iff.mp hwhole))) hnone
      · exact ⟨hopen, leavesAtMost_iff.mp hroom⟩
    rw [if_pos ⟨hnone, hhold⟩, if_neg hnone]
    exact Prod.ext hmessages (get?_holdLeftover _ _ _).1

theorem get?_holdLeftover_other {key' : TcpStreamKey} (hkey : key ≠ key')
    (h : ¬ pp.Crowded key) :
    (pp.holdLeftover key' tail).tcpSipLeftover.get? key = pp.tcpSipLeftover.get? key := by
  rw [holdLeftover]
  rw [IndexMap.get?_insert, if_neg hkey]
  split_ifs with hfull
  · cases hentries : pp.tcpSipLeftover.entries with
    | nil =>
      have hsame : pp.tcpSipLeftover.dropFirst 1 = pp.tcpSipLeftover := by
        apply IndexMap.ext
        change pp.tcpSipLeftover.entries.drop 1 = _
        rw [hentries]
        rfl
      rw [hsame]
    | cons first rest =>
      have hfirst : key ≠ first.1 := by
        rintro rfl
        exact h ⟨hfull.2, by rw [IndexMap.keys, hentries]; rfl⟩
      rw [IndexMap.get?_dropFirst_one hentries, if_neg hfirst]
  · rfl

theorem frameFlushed_other (hkey : key ≠ p.streamKey)
    (h : ¬ (pp.removeLeftover p.streamKey).Crowded key) :
    (pp.frameFlushed env p streamOpen flushed).1.tcpSipLeftover.get? key
      = pp.tcpSipLeftover.get? key := by
  have hremoved : (pp.removeLeftover p.streamKey).tcpSipLeftover.get? key
      = pp.tcpSipLeftover.get? key := by
    rw [get?_removeLeftover, if_neg hkey]
  rw [frameFlushed]
  dsimp only
  split_ifs
  · exact hremoved
  · rw [get?_holdLeftover_other hkey h, hremoved]
  · exact hremoved
  · exact hremoved

theorem removeLeftover_removeLeftover (pp : PacketProcessor) (key : TcpStreamKey) :
    (pp.removeLeftover key).removeLeftover key = pp.removeLeftover key := by
  rw [removeLeftover, removeLeftover]
  congr 1
  apply IndexMap.ext
  change (pp.tcpSipLeftover.entries.filter _).filter _ = pp.tcpSipLeftover.entries.filter _
  rw [filter_filter]
  simp only [Bool.and_self]

theorem delivered_left (data : List UInt8) :
    delivered (framed data).2 = ([], partialOf (framed data).2) := by
  rw [delivered, framed_left]

theorem getD_partialOf (tail : List UInt8) : (partialOf tail).getD [] = tail := by
  unfold partialOf
  split_ifs with h
  · exact h.symm
  · rfl

theorem processTcp_own {data : List UInt8} (h : pp.Keeps env now p.streamKey p)
    (hheld : pp.tcpSipLeftover.get? p.streamKey = partialOf (framed data).2) :
    ((pp.processTcp env now p).2.map ParsedPacket.payload,
        (pp.processTcp env now p).1.tcpSipLeftover.get? p.streamKey)
      = delivered ((framed data).2 ++ (pp.tcpReassembler.insert env now p).2.flatten) := by
  cases hinsert : pp.tcpReassembler.insert env now p with
  | mk r flushed =>
    rw [Keeps, hinsert] at h
    dsimp only at h ⊢
    rw [if_neg (not_not_intro rfl)] at h
    by_cases hnone : flushed = []
    · subst hnone
      rw [if_pos rfl] at h
      rw [processTcp_of_none env now pp p hinsert, flatten_nil, append_nil, delivered_left, ← hheld,
        releaseClosed]
      rcases h with hopen | hnone
      · rw [if_pos hopen]
        rfl
      · rw [hnone]
        split_ifs
        · exact Prod.ext rfl hnone
        · exact Prod.ext rfl hnone
    · rw [if_neg hnone, hheld, getD_partialOf] at h
      obtain ⟨r', resynced, htake⟩ : ∃ r' resynced, r.takeResync p.streamKey = (r', resynced) :=
        ⟨_, _, rfl⟩
      rw [htake] at h
      rw [processTcp_of_some env now pp p hinsert hnone htake]
      have hsame : ((if resynced then { pp with tcpReassembler := r' }.removeLeftover p.streamKey
          else { pp with tcpReassembler := r' }).tcpSipLeftover.get? p.streamKey).getD []
          = (framed data).2 := by
        split_ifs with hresynced
        · rw [get?_removeLeftover, if_pos rfl, ← getD_partialOf (framed data).2, h.1 hresynced]
        · change (pp.tcpSipLeftover.get? p.streamKey).getD [] = _
          rw [hheld, getD_partialOf]
      rw [frameFlushed_own (by rw [hsame]; exact h.2), hsame]

theorem processTcp_other (hkey : p.streamKey ≠ key) (h : pp.Keeps env now key p) :
    (pp.processTcp env now p).1.tcpSipLeftover.get? key = pp.tcpSipLeftover.get? key := by
  cases hinsert : pp.tcpReassembler.insert env now p with
  | mk r flushed =>
    rw [Keeps, hinsert] at h
    dsimp only at h
    rw [if_pos hkey] at h
    by_cases hnone : flushed = []
    · subst hnone
      rw [processTcp_of_none env now pp p hinsert, releaseClosed]
      split_ifs
      · rfl
      · split
        · rfl
        · rw [get?_removeLeftover, if_neg (Ne.symm hkey)]
    · obtain ⟨r', resynced, htake⟩ : ∃ r' resynced, r.takeResync p.streamKey = (r', resynced) :=
        ⟨_, _, rfl⟩
      have hroom := h.resolve_left hnone
      rw [processTcp_of_some env now pp p hinsert hnone htake]
      split_ifs
      · rw [frameFlushed_other (Ne.symm hkey) (by rw [removeLeftover_removeLeftover]; exact hroom),
          get?_removeLeftover, if_neg (Ne.symm hkey)]
      · exact frameFlushed_other (Ne.symm hkey) hroom

/-! ## Runs -/

def Call.Keeps (env : ReassemblyEnv) (key : TcpStreamKey) (pp : PacketProcessor) : Call → Prop
  | process now p => pp.Keeps env now key p
  | sweep now =>
    (pp.tcpReassembler.sweep now).contains key = true ∨ pp.tcpSipLeftover.get? key = none

instance (env : ReassemblyEnv) (key : TcpStreamKey) (pp : PacketProcessor) (call : Call) :
    Decidable (call.Keeps env key pp) :=
  match call with
  | .process now p => inferInstanceAs (Decidable (pp.Keeps env now key p))
  | .sweep _ => inferInstanceAs (Decidable (_ ∨ _))

/-- What the reassembler hands over for a direction. -/
def Call.handsOver (env : ReassemblyEnv) (key : TcpStreamKey) (pp : PacketProcessor) :
    Call → List UInt8
  | process now p =>
    if p.streamKey = key then (pp.tcpReassembler.insert env now p).2.flatten else []
  | sweep _ => []

def Call.emits (env : ReassemblyEnv) (key : TcpStreamKey) (pp : PacketProcessor) :
    Call → List (List UInt8)
  | process now p =>
    if p.streamKey = key then (pp.processTcp env now p).2.map ParsedPacket.payload else []
  | sweep _ => []

theorem Call.Keeps.delivers {call : Call} {data : List UInt8} (h : call.Keeps env key pp)
    (hheld : pp.tcpSipLeftover.get? key = partialOf (framed data).2) :
    (call.emits env key pp, (call.apply env pp).1.tcpSipLeftover.get? key)
      = delivered ((framed data).2 ++ call.handsOver env key pp) := by
  cases call with
  | process now p =>
    rw [emits, handsOver, apply]
    by_cases hkey : p.streamKey = key
    · subst hkey
      rw [if_pos rfl, if_pos rfl]
      exact processTcp_own h hheld
    · rw [if_neg hkey, if_neg hkey, append_nil, delivered_left, ← hheld, processTcp_other hkey h]
  | sweep now =>
    rw [emits, handsOver, apply, append_nil, delivered_left, ← hheld, PacketProcessor.sweep]
    rw [IndexMap.get?_filter_key pp.tcpSipLeftover (pp.tcpReassembler.sweep now).contains]
    rcases h with hopen | hnone
    · rw [if_pos hopen]
    · rw [hnone, ite_self]

/-- What the calls of a run give, one after the other. -/
def gather {α : Type} (env : ReassemblyEnv) (f : PacketProcessor → Call → List α)
    (pp : PacketProcessor) : List Call → List α
  | [] => []
  | call :: rest => f pp call ++ gather env f (call.apply env pp).1 rest

theorem gather_concat {α : Type} (f : PacketProcessor → Call → List α) (calls : List Call)
    (call : Call) :
    gather env f pp (calls ++ [call]) =
      gather env f pp calls ++ f (applyAll env pp calls) call := by
  induction calls generalizing pp with
  | nil => exact append_nil _
  | cons first rest ih =>
    rw [cons_append, gather, ih, gather, append_assoc]
    rfl

/-- The run has emitted the messages of the stream that was handed over, and holds the rest. -/
def FramesStream (env : ReassemblyEnv) (key : TcpStreamKey) (pp : PacketProcessor)
    (calls : List Call) : Prop :=
  (gather env (Call.emits env key) pp calls, (applyAll env pp calls).tcpSipLeftover.get? key)
    = delivered (gather env (Call.handsOver env key) pp calls)

instance (env : ReassemblyEnv) (key : TcpStreamKey) (pp : PacketProcessor) (calls : List Call) :
    Decidable (FramesStream env key pp calls) := inferInstanceAs (Decidable (_ = _))

theorem framesStream_of_keeps {calls : List Call} (hempty : pp.tcpSipLeftover.get? key = none)
    (h : Stepwise (fun before call => call.Keeps env key (applyAll env pp before)) calls) :
    FramesStream env key pp calls := by
  induction calls using List.reverseRecOn with
  | nil => exact Prod.ext rfl hempty
  | append_singleton calls call ih =>
    obtain ⟨hbefore, hlast⟩ := stepwise_concat.mp h
    obtain ⟨hmessages, hheld⟩ := Prod.mk.inj (ih hbefore)
    obtain ⟨hemits, hheld'⟩ := Prod.mk.inj (hlast.delivers hheld)
    have hrun : applyAll env pp (calls ++ [call]) = (call.apply env (applyAll env pp calls)).1 := by
      rw [applyAll, foldl_append]
      rfl
    rw [FramesStream, gather_concat, gather_concat, hrun, delivered, framed_append, hmessages,
      hemits, hheld']

/-- The framer is incremental: what it cuts of the first bytes of a stream it cuts of every longer
one, with the rest cut as if the tail had come with it, and the messages lie end to end. A run of
the processor in which every call leaves the stream of a direction whole emits the messages of the
stream that the reassembler has handed over, however it was cut, and holds what is behind them. -/
theorem frame_tcp_sip_incremental (env : ReassemblyEnv) (maxSessions ttl : ℕ)
    (key : TcpStreamKey) (calls : List Call) :
    (∀ a b : List UInt8, frameTcpSip (a ++ b) =
      ((frameTcpSip a).1 ++ (frameTcpSip (a.drop (frameTcpSip a).2 ++ b)).1.map
          (shiftRange (frameTcpSip a).2),
        (frameTcpSip a).2 + (frameTcpSip (a.drop (frameTcpSip a).2 ++ b)).2)) ∧
      (∀ data : List UInt8, Contiguous 0 (frameTcpSip data).1 (frameTcpSip data).2) ∧
      (Stepwise (fun before call =>
          call.Keeps env key (applyAll env (withMaxSessions maxSessions ttl) before)) calls →
        FramesStream env key (withMaxSessions maxSessions ttl) calls) := by
  refine ⟨fun a b => ?_, fun data => ?_, fun h => ?_⟩
  · simp only [frameTcpSip_eq]
    exact cutFront_append frontCut_messageEnd a b
  · rw [frameTcpSip_eq]
    exact (contiguous_cutFront frontCut_messageEnd data).1
  · exact framesStream_of_keeps rfl h

/-- A request in two segments with the cut behind its first line. -/
theorem frame_tcp_sip_incremental_two_segments :
    let syn := Call.process 0 (TcpReassembler.dataPacket { syn := true } 99 [])
    let data := TcpReassembler.dataPacket { ack := true, psh := true }
    let cut := [syn, .process 1 (data 100 (asciiBytes "INVITE sip:a SIP/2.0\r\n")),
      .process 2 (data 122 (asciiBytes "l: 0\r\n\r\n"))]
    FramesStream .plain (data 100 []).streamKey (withMaxSessions 10 30000000000) cut :=
  (frame_tcp_sip_incremental _ _ _ _ _).2.2 (by decide +kernel)

/-- A request in one segment, and in two with the cut in its method. -/
theorem request_cut_in_method :
    let syn := Call.process 0 (TcpReassembler.dataPacket { syn := true } 99 [])
    let data := TcpReassembler.dataPacket { ack := true, psh := true }
    let whole := [syn, .process 1 (data 100 (asciiBytes "INVITE sip:a SIP/2.0\r\n\r\n"))]
    let cut := [syn, .process 1 (data 100 (asciiBytes "INV")),
      .process 2 (data 103 (asciiBytes "ITE sip:a SIP/2.0\r\n\r\n"))]
    let key := (data 100 []).streamKey
    let pp := withMaxSessions 10 30000000000
    gather .plain (Call.handsOver .plain key) pp cut
        = gather .plain (Call.handsOver .plain key) pp whole ∧
      gather .plain (Call.emits .plain key) pp whole
        = [asciiBytes "INVITE sip:a SIP/2.0\r\n\r\n"] ∧
      gather .plain (Call.emits .plain key) pp cut
        = [asciiBytes "INV", asciiBytes "ITE sip:a SIP/2.0\r\n\r\n"] ∧
      ¬ FramesStream .plain key pp cut := by
  decide +kernel

end PacketProcessor

end Sipnab
