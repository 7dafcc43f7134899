import Sipnab.Capture.SipFraming
import Sipnab.Capture.TcpReassembler

/-!
# From TCP segments to messages

The packet processor feeds each segment to the reassembler and frames what comes out. A partial
message at the end of a flush is held for its direction and put in front of the next flush. The
reassembler's streams and the held partials live in two maps with a cap each.
-/

namespace Sipnab

open IndexMap

structure PacketProcessor where
  tcpReassembler : TcpReassembler
  tcpSipLeftover : IndexMap TcpStreamKey (List UInt8) := .empty
  maxSessions : ℕ

namespace PacketProcessor

/-- Streams that resume behind a hole where a SIP message starts. -/
def withMaxSessions (maxSessions ttl : ℕ) : PacketProcessor where
  tcpReassembler := { maxEntries := maxSessions, ttl, resync := some startsSipMessage }
  maxSessions

def removeLeftover (pp : PacketProcessor) (key : TcpStreamKey) : PacketProcessor :=
  { pp with tcpSipLeftover := pp.tcpSipLeftover.filter (fun e => e.1 ≠ key) }

/-- Hold a partial for a direction, at the cost of the one held longest where the map is full. -/
def holdLeftover (pp : PacketProcessor) (key : TcpStreamKey) (tail : List UInt8) :
    PacketProcessor :=
  let held :=
    if (pp.tcpSipLeftover.get? key).isNone ∧ pp.maxSessions ≤ pp.tcpSipLeftover.length then
      pp.tcpSipLeftover.dropFirst 1
    else pp.tcpSipLeftover
  { pp with tcpSipLeftover := held.insert key tail }

theorem get?_removeLeftover (pp : PacketProcessor) (key key' : TcpStreamKey) :
    (pp.removeLeftover key).tcpSipLeftover.get? key' =
      if key' = key then none else pp.tcpSipLeftover.get? key' := by
  rw [removeLeftover, get?_filter_key pp.tcpSipLeftover (fun k => decide (k ≠ key))]
  by_cases h : key' = key
  · rw [if_pos h, if_neg (by simpa using h)]
  · rw [if_neg h, if_pos (by simpa using h)]

theorem get?_holdLeftover (pp : PacketProcessor) (key : TcpStreamKey) (tail : List UInt8) :
    (pp.holdLeftover key tail).tcpSipLeftover.get? key = some tail ∧
      ∀ key' ≠ key, ∀ l ∈ (pp.holdLeftover key tail).tcpSipLeftover.get? key',
        l ∈ pp.tcpSipLeftover.get? key' := by
  rw [holdLeftover]
  dsimp only
  rw [IndexMap.insert]
  refine ⟨by rw [get?_alter, if_pos rfl], ?_⟩
  intro key' hkey l hl
  rw [get?_alter, if_neg hkey] at hl
  split_ifs at hl
  · rw [Option.mem_def, get?_eq_some_iff] at hl ⊢
    exact List.mem_of_mem_drop hl
  · exact hl

/-- Nothing came out of the reassembler. A partial held for a stream that is gone comes out as it
is. -/
def releaseClosed (pp : PacketProcessor) (p : ParsedPacket) : PacketProcessor × List ParsedPacket :=
  if pp.tcpReassembler.contains p.streamKey then (pp, [])
  else match pp.tcpSipLeftover.get? p.streamKey with
    | none => (pp, [])
    | some rem =>
      (pp.removeLeftover p.streamKey, if rem.isEmpty then [] else [{ p with payload := rem }])

/-- Frame what came out, with the partial held before it in front. What is no SIP passes whole. -/
def frameFlushed (env : ReassemblyEnv) (pp : PacketProcessor) (p : ParsedPacket)
    (streamOpen : Bool) (flushed : List (List UInt8)) : PacketProcessor × List ParsedPacket :=
  let key := p.streamKey
  let buf := (pp.tcpSipLeftover.get? key).getD [] ++ flushed.flatten
  let pp := pp.removeLeftover key
  if !isSipMessage buf then (pp, [{ p with payload := buf }])
  else
    let (ranges, consumed) := frameTcpSip buf
    let out := ranges.map (fun r => { p with payload := slice buf r })
    let tail := buf.drop consumed
    if consumed < buf.length ∧ streamOpen = true ∧ tail.length ≤ env.maxTcpBuffer then
      (pp.holdLeftover key tail, out)
    else if consumed < buf.length then (pp, out ++ [{ p with payload := tail }])
    else (pp, out)

/-- One segment. A stream that skipped a hole or started afresh loses the partial held for it. -/
def processTcp (env : ReassemblyEnv) (now : Instant) (pp : PacketProcessor) (p : ParsedPacket) :
    PacketProcessor × List ParsedPacket :=
  let (r, flushed) := pp.tcpReassembler.insert env now p
  let streamOpen := r.contains p.streamKey
  if flushed.isEmpty then { pp with tcpReassembler := r }.releaseClosed p
  else
    let (r, resynced) := r.takeResync p.streamKey
    let pp := { pp with tcpReassembler := r }
    let pp := if resynced then pp.removeLeftover p.streamKey else pp
    pp.frameFlushed env p streamOpen flushed

/-- Drop idle streams, and the partials of streams that are gone. -/
def sweep (now : Instant) (pp : PacketProcessor) : PacketProcessor :=
  let r := pp.tcpReassembler.sweep now
  { pp with
    tcpReassembler := r
    tcpSipLeftover := pp.tcpSipLeftover.filter (fun e => r.contains e.1) }

end PacketProcessor

end Sipnab
