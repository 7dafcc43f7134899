import Sipnab.Lib.BigEndian
import Sipnab.Lib.Patches
import Sipnab.Rtp.Stream

/-!
# Frames rebuilt around decrypted content

A rebuilt frame keeps the captured link layer and IP header, with the lengths and the checksums
written again, around a transport header and the plaintext.
-/

namespace Sipnab

open List Option

/-- A captured packet, with the place where the walk over its link layer finds the outermost IP
header. -/
structure CapturedPacket where
  timestamp : DateTime
  data : List UInt8
  caplen : ℕ
  origlen : ℕ
  ipOffset : Option ℕ
  origin : Option ℕ
  deriving DecidableEq

def numberAt (d : List UInt8) (i n : ℕ) : ℕ := ofBeBytes (bytesAt d i n)

def protoTcp : ℕ := 6

def protoUdp : ℕ := 17

/-! ## The checksum -/

def sum16 : List UInt8 → ℕ
  | [] => 0
  | [a] => 256 * a.toNat
  | a :: b :: rest => 256 * a.toNat + b.toNat + sum16 rest

def foldCarries : ℕ → ℕ → ℕ
  | 0, s => s
  | fuel + 1, s => if 0xffff < s then foldCarries fuel (s % 0x10000 + s / 0x10000) else s

def checksum (parts : List (List UInt8)) : ℕ :=
  let s := (parts.map sum16).sum
  0xffff - foldCarries s s

/-! ## The IP header -/

structure IpView where
  off : ℕ
  len : ℕ
  v6 : Bool
  proto : ℕ
  fragment : Bool
  deriving DecidableEq

namespace IpView

def of (packet : CapturedPacket) : Option IpView :=
  packet.ipOffset.bind (fun off =>
    let d := packet.data
    let version := numberAt d off 1 / 16
    if version = 4 then
      let len := numberAt d off 1 % 16 * 4
      if len < 20 ∨ d.length < off + len then none
      else
        let frag := numberAt d (off + 6) 2
        some ⟨off, len, false, numberAt d (off + 9) 1, frag / 0x2000 % 2 ≠ 0 ∨ frag % 0x2000 ≠ 0⟩
    else if version = 6 ∧ off + 40 ≤ d.length then
      -- an extension header shows as a protocol that is neither TCP nor UDP
      some ⟨off, 40, true, numberAt d (off + 6) 1, false⟩
    else none)

def addrs (ip : IpView) (d : List UInt8) : List UInt8 × List UInt8 :=
  if ip.v6 then (bytesAt d (ip.off + 8) 16, bytesAt d (ip.off + 24) 16)
  else (bytesAt d (ip.off + 12) 4, bytesAt d (ip.off + 16) 4)

end IpView

/-- The IP header for a transport of `proto` that is `tlen` bytes long. -/
def ipHeader (d : List UInt8) (ip : IpView) (proto tlen : ℕ) : List UInt8 :=
  let header := bytesAt d ip.off ip.len
  if ip.v6 then patch (patch header 4 (toBeBytes 2 tlen)) 6 (toBeBytes 1 proto)
  else
    let header := patch header 2 (toBeBytes 2 (ip.len + tlen))
    -- whole, never a fragment: only don't-fragment is kept
    let header := patch header 6 (toBeBytes 1 (numberAt header 6 1 / 0x40 % 2 * 0x40))
    let header := patch header 7 [0]
    let header := patch header 9 (toBeBytes 1 proto)
    let header := patch header 10 [0, 0]
    patch header 10 (toBeBytes 2 (checksum [header]))

def pseudoHeader (d : List UInt8) (ip : IpView) (proto tlen : ℕ) : List UInt8 :=
  let (src, dst) := ip.addrs d
  if ip.v6 then src ++ dst ++ toBeBytes 4 tlen ++ [0, 0, 0] ++ toBeBytes 1 proto
  else src ++ dst ++ [0] ++ toBeBytes 1 proto ++ toBeBytes 2 tlen

/-- The captured link layer, the IP header rewritten, and the transport with its checksum. -/
def assemble (d : List UInt8) (ip : IpView) (proto : ℕ) (transport : List UInt8) (csumAt : ℕ) :
    List UInt8 :=
  let transport := patch transport csumAt [0, 0]
  let c := checksum [pseudoHeader d ip proto transport.length, transport]
  -- zero means no checksum in UDP
  let c := if c = 0 ∧ proto = protoUdp then 0xffff else c
  d.take ip.off ++ (ipHeader d ip proto transport.length ++ patch transport csumAt (toBeBytes 2 c))

def rebuildUdp (packet : CapturedPacket) (payload : List UInt8) : Option (List UInt8) :=
  (IpView.of packet).bind (fun ip =>
    let d := packet.data
    if ip.proto ≠ protoUdp ∨ ip.fragment then none
    else if d.length < ip.off + ip.len + 4 then none
    else
      let ports := bytesAt d (ip.off + ip.len) 4
      some (assemble d ip protoUdp (ports ++ toBeBytes 2 (8 + payload.length) ++ [0, 0] ++ payload)
        6))

def tcpSegment (ports : ℕ × ℕ) (seq ack : BitVec 32) (payload : List UInt8) : List UInt8 :=
  toBeBytes 2 ports.1 ++ (toBeBytes 2 ports.2 ++ (toBeBytes 4 seq.toNat ++ (toBeBytes 4 ack.toNat ++
    ([0x50, 0x18, 0xff, 0xff, 0, 0, 0, 0] ++ payload))))

def buildTcp (template : CapturedPacket) (ip : IpView) (ports : ℕ × ℕ) (seq ack : BitVec 32)
    (payload : List UInt8) : List UInt8 :=
  assemble template.data ip protoTcp (tcpSegment ports seq ack payload) 16

/-! ## Reading a segment -/

def sock (bytes : List UInt8) (port : ℕ) : Option SocketAddr :=
  if bytes.length = 4 then some (.v4 (BitVec.ofNat 32 (ofBeBytes bytes)), port)
  else if bytes.length = 16 then some (.v6 (BitVec.ofNat 128 (ofBeBytes bytes)), port)
  else none

structure TcpView where
  ip : IpView
  src : SocketAddr
  dst : SocketAddr
  seq : BitVec 32
  syn : Bool
  dataAt : ℕ
  deriving DecidableEq

def TcpView.of (packet : CapturedPacket) : Option TcpView :=
  (IpView.of packet).bind (fun ip =>
    let d := packet.data
    let t := ip.off + ip.len
    if ip.proto ≠ protoTcp ∨ ip.fragment ∨ d.length < t + 20 then none
    else
      let (s, r) := ip.addrs d
      (sock s (numberAt d t 2)).bind (fun src =>
        (sock r (numberAt d (t + 2) 2)).map (fun dst =>
          ⟨ip, src, dst, BitVec.ofNat 32 (numberAt d (t + 4) 4),
            numberAt d (t + 13) 1 / 2 % 2 ≠ 0, t + numberAt d (t + 12) 1 / 16 * 4⟩)))

/-! ## A rebuilt frame, read again -/

def ipEnd (d : List UInt8) (ip : IpView) : ℕ :=
  if ip.v6 then ip.off + 40 + numberAt d (ip.off + 4) 2 else ip.off + numberAt d (ip.off + 2) 2

def TcpView.payload (v : TcpView) (packet : CapturedPacket) : List UInt8 :=
  bytesAt packet.data v.dataAt (ipEnd packet.data v.ip - v.dataAt)

variable {d : List UInt8} {ip : IpView}

theorem numberAt_of_bytesAt {i k n : ℕ} (h : bytesAt d i k = toBeBytes k n) (hn : n < 256 ^ k) :
    numberAt d i k = n := by
  rw [numberAt, h, ofBeBytes_toBeBytes hn]

/-- What a frame has in the place of an IP header for a transport of `proto`. -/
structure HeaderFor (d : List UInt8) (ip : IpView) (proto tlen : ℕ) (h : List UInt8) : Prop where
  length : h.length = ip.len
  first : bytesAt h 0 1 = bytesAt d ip.off 1
  total : if ip.v6 then bytesAt h 4 2 = toBeBytes 2 tlen
    else bytesAt h 2 2 = toBeBytes 2 (ip.len + tlen)
  protocol : if ip.v6 then bytesAt h 6 1 = toBeBytes 1 proto else bytesAt h 9 1 = toBeBytes 1 proto
  whole : ip.v6 = false → numberAt h 6 2 = 0 ∨ numberAt h 6 2 = 0x4000
  src : if ip.v6 then bytesAt h 8 16 = bytesAt d (ip.off + 8) 16
    else bytesAt h 12 4 = bytesAt d (ip.off + 12) 4
  dst : if ip.v6 then bytesAt h 24 16 = bytesAt d (ip.off + 24) 16
    else bytesAt h 16 4 = bytesAt d (ip.off + 16) 4

theorem headerFor_v6 (hv6 : ip.v6 = true) (hlen : ip.len = 40) (hd : ip.off + ip.len ≤ d.length)
    (proto tlen : ℕ) : HeaderFor d ip proto tlen (ipHeader d ip proto tlen) := by
  have h₀ : (bytesAt d ip.off ip.len).length = 40 := by rw [length_bytesAt hd, hlen]
  have h₁ : (patch (bytesAt d ip.off ip.len) 4 (toBeBytes 2 tlen)).length = 40 := by
    rw [length_patch (by rw [h₀, length_toBeBytes]; omega), h₀]
  have hfar : ∀ j n, j + n ≤ 4 ∨ 7 ≤ j → j + n ≤ 40 →
      bytesAt (ipHeader d ip proto tlen) j n = bytesAt d (ip.off + j) n := by
    intro j n hj hn
    unfold ipHeader
    rw [if_pos hv6, bytesAt_patch_of_disjoint (by rw [h₁, length_toBeBytes]; omega)
      (by rw [length_toBeBytes]; omega), bytesAt_patch_of_disjoint
      (by rw [h₀, length_toBeBytes]; omega) (by rw [length_toBeBytes]; omega),
      bytesAt_bytesAt (by omega)]
  refine ⟨?_, ?_, ?_, ?_, fun h => ?_, ?_, ?_⟩
  · unfold ipHeader
    rw [if_pos hv6, length_patch (by rw [h₁, length_toBeBytes]; omega), h₁, hlen]
  · exact hfar 0 1 (by omega) (by omega)
  · rw [if_pos hv6]
    unfold ipHeader
    rw [if_pos hv6, bytesAt_patch_of_disjoint (by rw [h₁, length_toBeBytes]; omega) (by omega)]
    exact (bytesAt_patch_self' (by rw [h₀, length_toBeBytes]; omega) (length_toBeBytes 2 tlen))
  · rw [if_pos hv6]
    unfold ipHeader
    rw [if_pos hv6]
    exact bytesAt_patch_self' (by rw [h₁, length_toBeBytes]; omega) (length_toBeBytes 1 proto)
  · rw [hv6] at h
    cases h
  · rw [if_pos hv6]
    exact hfar 8 16 (by omega) (by omega)
  · rw [if_pos hv6]
    exact hfar 24 16 (by omega) (by omega)

theorem headerFor_v4 (hv4 : ip.v6 = false) (hlen : 20 ≤ ip.len) (hd : ip.off + ip.len ≤ d.length)
    (proto tlen : ℕ) : HeaderFor d ip proto tlen (ipHeader d ip proto tlen) := by
  have hv : ¬ip.v6 = true := by rw [hv4]; exact Bool.false_ne_true
  -- the header after each write, from the total length to the checksum
  have l₀ := length_bytesAt hd
  generalize e₀ : bytesAt d ip.off ip.len = h₀ at l₀
  have s₁ : 2 + (toBeBytes 2 (ip.len + tlen)).length ≤ h₀.length := by
    rw [length_toBeBytes]; omega
  have l₁ := length_patch s₁
  generalize e₁ : patch h₀ 2 (toBeBytes 2 (ip.len + tlen)) = h₁ at l₁
  generalize ef : toBeBytes 1 (numberAt h₁ 6 1 / 0x40 % 2 * 0x40) = flags
  have hflags : flags.length = 1 := by rw [← ef, length_toBeBytes]
  have s₂ : 6 + flags.length ≤ h₁.length := by omega
  have l₂ := length_patch s₂
  generalize e₂ : patch h₁ 6 flags = h₂ at l₂
  have s₃ : 7 + [(0 : UInt8)].length ≤ h₂.length := by rw [length_singleton]; omega
  have l₃ := length_patch s₃
  generalize e₃ : patch h₂ 7 [0] = h₃ at l₃
  have s₄ : 9 + (toBeBytes 1 proto).length ≤ h₃.length := by rw [length_toBeBytes]; omega
  have l₄ := length_patch s₄
  generalize e₄ : patch h₃ 9 (toBeBytes 1 proto) = h₄ at l₄
  have s₅ : 10 + [(0 : UInt8), 0].length ≤ h₄.length := by
    rw [length_cons, length_singleton]; omega
  have l₅ := length_patch s₅
  generalize e₅ : patch h₄ 10 [0, 0] = h₅ at l₅
  have s₆ : 10 + (toBeBytes 2 (checksum [h₅])).length ≤ h₅.length := by
    rw [length_toBeBytes]; omega
  have hheader : ipHeader d ip proto tlen = patch h₅ 10 (toBeBytes 2 (checksum [h₅])) := by
    unfold ipHeader
    rw [if_neg hv]
    dsimp only
    rw [e₀, e₁, ef, e₂, e₃, e₄, e₅]
  have hsums : ∀ j n, j + n ≤ 10 ∨ 12 ≤ j →
      bytesAt (ipHeader d ip proto tlen) j n = bytesAt h₄ j n := by
    intro j n hj
    rw [hheader, bytesAt_patch_of_disjoint s₆ (by rw [length_toBeBytes]; omega), ← e₅,
      bytesAt_patch_of_disjoint s₅ (by rw [length_cons, length_singleton]; omega)]
  have hfar : ∀ j n, j + n ≤ 2 ∨ 12 ≤ j → j + n ≤ ip.len →
      bytesAt (ipHeader d ip proto tlen) j n = bytesAt d (ip.off + j) n := by
    intro j n hj hn
    rw [hsums j n (by omega), ← e₄, bytesAt_patch_of_disjoint s₄ (by rw [length_toBeBytes]; omega),
      ← e₃, bytesAt_patch_of_disjoint s₃ (by rw [length_singleton]; omega), ← e₂,
      bytesAt_patch_of_disjoint s₂ (by omega), ← e₁,
      bytesAt_patch_of_disjoint s₁ (by rw [length_toBeBytes]; omega), ← e₀, bytesAt_bytesAt hn]
  have hsix : bytesAt (ipHeader d ip proto tlen) 6 1 = flags := by
    rw [hsums 6 1 (by omega), ← e₄, bytesAt_patch_of_disjoint s₄ (by omega), ← e₃,
      bytesAt_patch_of_disjoint s₃ (by omega), ← e₂]
    exact bytesAt_patch_self' s₂ hflags
  have hseven : bytesAt (ipHeader d ip proto tlen) 7 1 = [0] := by
    rw [hsums 7 1 (by omega), ← e₄, bytesAt_patch_of_disjoint s₄ (by omega), ← e₃]
    exact bytesAt_patch_self' s₃ rfl
  refine ⟨?_, hfar 0 1 (by omega) (by omega), ?_, ?_, fun _ => ?_, ?_, ?_⟩
  · rw [hheader, length_patch s₆]
    omega
  · rw [if_neg hv, hsums 2 2 (by omega), ← e₄, bytesAt_patch_of_disjoint s₄ (by omega), ← e₃,
      bytesAt_patch_of_disjoint s₃ (by omega), ← e₂, bytesAt_patch_of_disjoint s₂ (by omega), ← e₁]
    exact bytesAt_patch_self' s₁ (length_toBeBytes 2 _)
  · rw [if_neg hv, hsums 9 1 (by omega), ← e₄]
    exact bytesAt_patch_self' s₄ (length_toBeBytes 1 proto)
  · have hnumber : numberAt (ipHeader d ip proto tlen) 6 2 =
        256 * (numberAt h₁ 6 1 / 0x40 % 2 * 0x40) := by
      have hsplit := bytesAt_add (d := ipHeader d ip proto tlen) (i := 6) (n := 1) 1
      rw [hsix, hseven, ← ef] at hsplit
      rw [numberAt, hsplit, ofBeBytes_concat, ofBeBytes_toBeBytes (by omega)]
      rfl
    omega
  · rw [if_neg hv]
    exact hfar 12 4 (by omega) (by omega)
  · rw [if_neg hv]
    exact hfar 16 4 (by omega) (by omega)

namespace IpView

theorem of_eq_some {packet : CapturedPacket} {ip : IpView} (h : IpView.of packet = some ip) :
    packet.ipOffset = some ip.off ∧ ip.off + ip.len ≤ packet.data.length ∧
    (ip.v6 = false ∧ 20 ≤ ip.len ∧ numberAt packet.data ip.off 1 / 16 = 4 ∧
        ip.len = numberAt packet.data ip.off 1 % 16 * 4 ∨
      ip.v6 = true ∧ ip.len = 40 ∧ numberAt packet.data ip.off 1 / 16 = 6) := by
  obtain ⟨off, hoff, h⟩ := bind_eq_some_iff.mp h
  dsimp only at h
  split_ifs at h with hfour hshort hsix
  · cases h
    rw [not_or, not_lt, not_lt] at hshort
    exact ⟨hoff, hshort.2, .inl ⟨rfl, hshort.1, hfour, rfl⟩⟩
  · cases h
    exact ⟨hoff, hsix.2, .inr ⟨rfl, rfl, hsix.1⟩⟩

variable {packet packet' : CapturedPacket} {ip : IpView} {proto csumAt : ℕ} {transport : List UInt8}

theorem headerFor (h : IpView.of packet = some ip) (proto tlen : ℕ) :
    HeaderFor packet.data ip proto tlen (ipHeader packet.data ip proto tlen) := by
  obtain ⟨-, hd, ⟨hv4, hlen, -⟩ | ⟨hv6, hlen, -⟩⟩ := of_eq_some h
  · exact headerFor_v4 hv4 hlen hd proto tlen
  · exact headerFor_v6 hv6 hlen hd proto tlen

theorem assemble_reads (h : IpView.of packet = some ip) (proto : ℕ)
    (hcsum : csumAt + 2 ≤ transport.length) {frame : List UInt8}
    (hframe : frame = assemble packet.data ip proto transport csumAt) :
    ∃ header, HeaderFor packet.data ip proto transport.length header ∧
      frame.length = ip.off + ip.len + transport.length ∧
      (∀ i n, i + n ≤ ip.len → bytesAt frame (ip.off + i) n = bytesAt header i n) ∧
      ∀ i n, i + n ≤ csumAt ∨ csumAt + 2 ≤ i →
        bytesAt frame (ip.off + ip.len + i) n = bytesAt transport i n := by
  obtain ⟨-, hd, -⟩ := of_eq_some h
  have htake : (packet.data.take ip.off).length = ip.off := by
    rw [length_take]
    omega
  have hzero : csumAt + [(0 : UInt8), 0].length ≤ transport.length := hcsum
  have hlength := length_patch hzero
  have hheader := headerFor h proto (patch transport csumAt [0, 0]).length
  unfold assemble at hframe
  dsimp only at hframe
  generalize ipHeader packet.data ip proto (patch transport csumAt [0, 0]).length = header at *
  generalize (if checksum [pseudoHeader packet.data ip proto
    (patch transport csumAt [0, 0]).length, patch transport csumAt [0, 0]] = 0 ∧
    proto = protoUdp then 0xffff else checksum [pseudoHeader packet.data ip proto
    (patch transport csumAt [0, 0]).length, patch transport csumAt [0, 0]]) = c at hframe
  have hsum : csumAt + (toBeBytes 2 c).length ≤ (patch transport csumAt [0, 0]).length := by
    rw [length_toBeBytes, hlength]
    exact hcsum
  refine ⟨header, hlength ▸ hheader, ?_, fun i n hi => ?_, fun i n hi => ?_⟩
  · rw [hframe, length_append, length_append, htake, hheader.length, length_patch hsum, hlength]
    omega
  · rw [hframe, bytesAt_append_right (by omega), htake, Nat.add_sub_cancel_left,
      bytesAt_append_left (by rw [hheader.length]; exact hi)]
  · rw [hframe, bytesAt_append_right (by omega), htake,
      bytesAt_append_right (by rw [hheader.length]; omega), hheader.length,
      show ip.off + ip.len + i - ip.off - ip.len = i by omega,
      bytesAt_patch_of_disjoint hsum (by rw [length_toBeBytes]; exact hi),
      bytesAt_patch_of_disjoint hzero hi]

theorem of_assemble (h : IpView.of packet = some ip) (hproto : proto < 256)
    (hcsum : csumAt + 2 ≤ transport.length) (hoffset : packet'.ipOffset = packet.ipOffset)
    (hdata : packet'.data = assemble packet.data ip proto transport csumAt) :
    IpView.of packet' = some ⟨ip.off, ip.len, ip.v6, proto, false⟩ := by
  obtain ⟨hoff, hd, hversion⟩ := of_eq_some h
  obtain ⟨header, hheader, hlength, hread, -⟩ := assemble_reads h proto hcsum hdata
  have hfirst : numberAt packet'.data ip.off 1 = numberAt packet.data ip.off 1 := by
    have hzero : bytesAt packet'.data ip.off 1 = bytesAt header 0 1 := hread 0 1 (by omega)
    unfold numberAt
    rw [hzero, hheader.first]
  unfold IpView.of
  rw [hoffset, hoff, bind_some]
  dsimp only
  rw [hfirst]
  rcases hversion with ⟨hv4, hlen, hfour, hwords⟩ | ⟨hv6, hlen, hsix⟩
  · have hprotocol : numberAt packet'.data (ip.off + 9) 1 = proto := by
      refine numberAt_of_bytesAt ((hread 9 1 (by omega)).trans ?_) (by omega)
      simpa [hv4] using hheader.protocol
    have hwhole : numberAt packet'.data (ip.off + 6) 2 = 0 ∨
        numberAt packet'.data (ip.off + 6) 2 = 0x4000 := by
      unfold numberAt
      rw [hread 6 2 (by omega)]
      exact hheader.whole hv4
    rw [if_pos hfour, ← hwords, if_neg (by omega), hprotocol, hv4]
    rcases hwhole with hfrag | hfrag
    · rw [hfrag]
      rfl
    · rw [hfrag]
      rfl
  · have hprotocol : numberAt packet'.data (ip.off + 6) 1 = proto := by
      refine numberAt_of_bytesAt ((hread 6 1 (by omega)).trans ?_) (by omega)
      simpa [hv6] using hheader.protocol
    rw [if_neg (by omega), if_pos ⟨hsix, by omega⟩, hprotocol, hv6, hlen]

end IpView

/-! ## A rebuilt segment, read again -/

theorem sock_port {bytes : List UInt8} {port : ℕ} {s : SocketAddr} (h : sock bytes port = some s) :
    s.2 = port := by
  unfold sock at h
  split_ifs at h
  · cases h
    rfl
  · cases h
    rfl

namespace TcpView

variable {packet packet' : CapturedPacket} {v : TcpView}

theorem of_eq_some (h : TcpView.of packet = some v) :
    IpView.of packet = some v.ip ∧ v.ip.proto = protoTcp ∧
    sock (v.ip.addrs packet.data).1 (numberAt packet.data (v.ip.off + v.ip.len) 2) = some v.src ∧
    sock (v.ip.addrs packet.data).2 (numberAt packet.data (v.ip.off + v.ip.len + 2) 2) =
      some v.dst := by
  obtain ⟨ip, hip, h⟩ := bind_eq_some_iff.mp h
  dsimp only at h
  split_ifs at h with hwhole
  obtain ⟨src, hsrc, h⟩ := bind_eq_some_iff.mp h
  obtain ⟨dst, hdst, h⟩ := map_eq_some_iff.mp h
  cases h
  rw [not_or, not_not] at hwhole
  exact ⟨hip, hwhole.1, hsrc, hdst⟩

theorem of_eq_none {ip : IpView} (h : IpView.of packet = some ip) (hproto : ip.proto ≠ protoTcp) :
    TcpView.of packet = none := by
  unfold TcpView.of
  rw [h, bind_some]
  rw [if_pos (.inl hproto)]

theorem port_lt (d : List UInt8) (i : ℕ) : numberAt d i 2 < 256 ^ 2 := by
  have hlength : (bytesAt d i 2).length ≤ 2 := length_take_le 2 _
  exact (ofBeBytes_lt _).trans_le (Nat.pow_le_pow_right (by omega) hlength)

def Fits (ip : IpView) (payload : List UInt8) : Prop :=
  (if ip.v6 then 20 else ip.len + 20) + payload.length < 65536

instance (ip : IpView) (payload : List UInt8) : Decidable (Fits ip payload) :=
  inferInstanceAs (Decidable (_ < _))

variable (ports : ℕ × ℕ) (seq ack : BitVec 32) (payload : List UInt8)

theorem length_tcpSegment : (tcpSegment ports seq ack payload).length = 20 + payload.length := by
  simp only [tcpSegment, length_append, length_toBeBytes, length_cons, length_nil]
  omega

theorem bytesAt_toBeBytes_append {k j m n : ℕ} {b : List UInt8} (h : k ≤ j) :
    bytesAt (toBeBytes k m ++ b) j n = bytesAt b (j - k) n := by
  rw [bytesAt_append_right (by rwa [length_toBeBytes]), length_toBeBytes]

theorem bytesAt_tcpSegment :
    bytesAt (tcpSegment ports seq ack payload) 0 2 = toBeBytes 2 ports.1 ∧
    bytesAt (tcpSegment ports seq ack payload) 2 2 = toBeBytes 2 ports.2 ∧
    bytesAt (tcpSegment ports seq ack payload) 4 4 = toBeBytes 4 seq.toNat ∧
    bytesAt (tcpSegment ports seq ack payload) 12 1 = [0x50] ∧
    bytesAt (tcpSegment ports seq ack payload) 20 payload.length = payload := by
  have hall : ∀ (k m : ℕ) (b : List UInt8), bytesAt (toBeBytes k m ++ b) 0 k = toBeBytes k m := by
    intro k m b
    rw [bytesAt_append_left (by rw [length_toBeBytes, zero_add])]
    exact bytesAt_all (length_toBeBytes k m).le
  unfold tcpSegment
  refine ⟨hall 2 _ _, ?_, ?_, ?_, ?_⟩
  · rw [bytesAt_toBeBytes_append le_rfl]
    exact hall 2 _ _
  · rw [bytesAt_toBeBytes_append (by omega), bytesAt_toBeBytes_append le_rfl]
    exact hall 4 _ _
  · rw [bytesAt_toBeBytes_append (by omega), bytesAt_toBeBytes_append (by omega),
      bytesAt_toBeBytes_append (by omega), bytesAt_toBeBytes_append le_rfl]
    rfl
  · rw [bytesAt_toBeBytes_append (by omega), bytesAt_toBeBytes_append (by omega),
      bytesAt_toBeBytes_append (by omega), bytesAt_toBeBytes_append (by omega),
      bytesAt_append_right (by simp)]
    exact bytesAt_all le_rfl

/-- A segment that is built on a captured one has its endpoints, and the number and the bytes that
it was given. -/
theorem of_buildTcp (h : TcpView.of packet = some v) {seq ack : BitVec 32} {payload : List UInt8}
    (hfits : Fits v.ip payload) (hoffset : packet'.ipOffset = packet.ipOffset)
    (hdata : packet'.data = buildTcp packet v.ip (v.src.2, v.dst.2) seq ack payload) :
    ∃ w, TcpView.of packet' = some w ∧ w.src = v.src ∧ w.dst = v.dst ∧ w.seq = seq ∧
      w.payload packet' = payload := by
  obtain ⟨hip, -, hsrc, hdst⟩ := of_eq_some h
  have hlength := length_tcpSegment (v.src.2, v.dst.2) seq ack payload
  have hcsum : 16 + 2 ≤ (tcpSegment (v.src.2, v.dst.2) seq ack payload).length := by omega
  have hof := IpView.of_assemble hip (by decide : protoTcp < 256) hcsum hoffset hdata
  obtain ⟨hoff, hd, hversion⟩ := IpView.of_eq_some hip
  obtain ⟨header, hheader, hframe, hread, hsegment⟩ :=
    IpView.assemble_reads hip protoTcp hcsum hdata
  obtain ⟨hf₀, hf₂, hf₄, hf₁₂, hf₂₀⟩ := bytesAt_tcpSegment (v.src.2, v.dst.2) seq ack payload
  have hsport : numberAt packet'.data (v.ip.off + v.ip.len) 2 = v.src.2 := by
    refine numberAt_of_bytesAt ((hsegment 0 2 (by omega)).trans hf₀) ?_
    rw [sock_port hsrc]
    exact port_lt _ _
  have hdport : numberAt packet'.data (v.ip.off + v.ip.len + 2) 2 = v.dst.2 := by
    refine numberAt_of_bytesAt ((hsegment 2 2 (by omega)).trans hf₂) ?_
    rw [sock_port hdst]
    exact port_lt _ _
  have hseq : numberAt packet'.data (v.ip.off + v.ip.len + 4) 4 = seq.toNat :=
    numberAt_of_bytesAt ((hsegment 4 4 (by omega)).trans hf₄) seq.isLt
  have hwords : numberAt packet'.data (v.ip.off + v.ip.len + 12) 1 = 0x50 := by
    rw [numberAt, hsegment 12 1 (by omega), hf₁₂]
    rfl
  have haddrs : IpView.addrs ⟨v.ip.off, v.ip.len, v.ip.v6, protoTcp, false⟩ packet'.data =
      v.ip.addrs packet.data := by
    have hs := hheader.src
    have hr := hheader.dst
    unfold IpView.addrs
    rcases hversion with ⟨hv4, hlen, -⟩ | ⟨hv6, hlen, -⟩
    · simp only [hv4, Bool.false_eq_true, ↓reduceIte] at hs hr ⊢
      rw [hread 12 4 (by omega), hread 16 4 (by omega), hs, hr]
    · simp only [hv6, ↓reduceIte] at hs hr ⊢
      rw [hread 8 16 (by omega), hread 24 16 (by omega), hs, hr]
  have hend : ipEnd packet'.data ⟨v.ip.off, v.ip.len, v.ip.v6, protoTcp, false⟩ =
      v.ip.off + v.ip.len + 20 + payload.length := by
    have htotal := hheader.total
    unfold Fits at hfits
    unfold ipEnd
    rcases hversion with ⟨hv4, hlen, -⟩ | ⟨hv6, hlen, -⟩
    · simp only [hv4, Bool.false_eq_true, ↓reduceIte] at htotal hfits ⊢
      rw [numberAt_of_bytesAt ((hread 2 2 (by omega)).trans htotal) (by omega), hlength]
      omega
    · simp only [hv6, ↓reduceIte] at htotal hfits ⊢
      rw [numberAt_of_bytesAt ((hread 4 2 (by omega)).trans htotal) (by omega), hlength, hlen]
      omega
  refine ⟨⟨⟨v.ip.off, v.ip.len, v.ip.v6, protoTcp, false⟩, v.src, v.dst, seq,
    numberAt packet'.data (v.ip.off + v.ip.len + 13) 1 / 2 % 2 ≠ 0,
    v.ip.off + v.ip.len + 20⟩, ?_, rfl, rfl, rfl, ?_⟩
  · unfold TcpView.of
    rw [hof, bind_some]
    dsimp only
    rw [if_neg (by simp only [ne_eq, not_true_eq_false, Bool.false_eq_true, false_or]; omega),
      haddrs, hsport, hdport, sock_port hsrc, hsrc, bind_some, sock_port hdst, hdst,
      map_some, hseq, hwords]
    simp
  · unfold TcpView.payload
    dsimp only
    rw [hend, Nat.add_sub_cancel_left, hsegment 20 _ (by omega), hf₂₀]

end TcpView

/-! ## The checksums of a rebuilt frame -/

theorem foldCarries_spec (fuel s : ℕ) (h : s ≤ fuel) :
    foldCarries fuel s ≤ 0xffff ∧ foldCarries fuel s % 0xffff = s % 0xffff ∧
      (foldCarries fuel s = 0 ↔ s = 0) := by
  induction fuel generalizing s with
  | zero =>
    rw [foldCarries]
    omega
  | succ fuel ih =>
    rw [foldCarries]
    split_ifs with hs
    · have hfold := ih (s % 0x10000 + s / 0x10000) (by omega)
      omega
    · omega

theorem sum16_append : ∀ {a : List UInt8} (b : List UInt8), a.length % 2 = 0 →
    sum16 (a ++ b) = sum16 a + sum16 b
  | [], _, _ => (Nat.zero_add _).symm
  | [_], _, h => by cases h
  | _ :: _ :: a, b, h => by
    rw [length_cons, length_cons] at h
    rw [cons_append, cons_append, sum16, sum16, sum16_append b (by omega)]
    omega

section

variable {t : List UInt8} {i c : ℕ} (heven : i % 2 = 0) (hi : i + 2 ≤ t.length)
  (hzero : bytesAt t i 2 = [0, 0])
include heven hi hzero

theorem sum16_patch (hc : c ≤ 0xffff) : sum16 (patch t i (toBeBytes 2 c)) = sum16 t + c := by
  have htake : (t.take i).length = i := by
    rw [length_take]
    omega
  have hword : sum16 (toBeBytes 2 c) = 256 * (c / 256 % 256) + c % 256 := rfl
  have ht : t = t.take i ++ ([0, 0] ++ t.drop (i + 2)) := by
    rw [← hzero, bytesAt, ← drop_drop, take_append_drop, take_append_drop]
  have hold : sum16 t = sum16 (t.take i) + (0 + sum16 (t.drop (i + 2))) := by
    conv_lhs => rw [ht]
    exact sum16_append _ (by omega)
  rw [patch, length_toBeBytes, append_assoc, sum16_append _ (by omega),
    sum16_append _ (by rw [length_toBeBytes]), hword, hold]
  omega

/-- Where the sum is complete without a checksum, `0xffff` completes it as well. -/
theorem checksum_patch (parts : List (List UInt8))
    (hc : c = checksum (parts ++ [t]) ∨ c = 0xffff ∧ checksum (parts ++ [t]) = 0) :
    c ≤ 0xffff ∧ checksum (parts ++ [patch t i (toBeBytes 2 c)]) = 0 := by
  have hold := foldCarries_spec _ _ (le_refl ((parts ++ [t]).map sum16).sum)
  have hnew := foldCarries_spec _ _
    (le_refl ((parts ++ [patch t i (toBeBytes 2 c)]).map sum16).sum)
  unfold checksum at hc ⊢
  dsimp only at hc ⊢
  have hle : c ≤ 0xffff := by omega
  simp only [map_append, map_singleton, sum_append, sum_singleton,
    sum16_patch heven hi hzero hle] at hold hnew hc ⊢
  omega

end

theorem checksum_ipHeader (hv4 : ip.v6 = false) (hlen : 20 ≤ ip.len)
    (hd : ip.off + ip.len ≤ d.length) (proto tlen : ℕ) :
    checksum [ipHeader d ip proto tlen] = 0 := by
  have hlength := (headerFor_v4 hv4 hlen hd proto tlen).length
  unfold ipHeader at hlength ⊢
  simp only [hv4, Bool.false_eq_true, ↓reduceIte] at hlength ⊢
  generalize patch (patch (patch (patch _ 2 _) 6 _) 7 _) 9 _ = header at *
  have hheader : 10 + [(0 : UInt8), 0].length ≤ header.length := by
    simp only [patch, length_append, length_take, length_drop, length_toBeBytes, length_cons,
      length_nil] at hlength ⊢
    omega
  have hi : 10 + 2 ≤ (patch header 10 [0, 0]).length := (length_patch hheader).symm ▸ hheader
  exact (checksum_patch rfl hi (bytesAt_patch_self hheader) [] (.inl rfl)).2

/-- What a reader checks of a frame: its length, and the sums over its header and its segment. -/
def Verifies (frame : List UInt8) (ip : IpView) (proto : ℕ) : Prop :=
  ipEnd frame ip = frame.length ∧ (ip.v6 = false → checksum [bytesAt frame ip.off ip.len] = 0) ∧
    checksum [pseudoHeader frame ip proto (frame.length - (ip.off + ip.len)),
      frame.drop (ip.off + ip.len)] = 0

variable {packet : CapturedPacket} {proto csumAt : ℕ} {transport frame : List UInt8}

theorem assemble_verifies (h : IpView.of packet = some ip) (heven : csumAt % 2 = 0)
    (hcsum : csumAt + 2 ≤ transport.length)
    (hfits : (if ip.v6 then 0 else ip.len) + transport.length < 65536)
    (hframe : frame = assemble packet.data ip proto transport csumAt) :
    Verifies frame ip proto ∧
      (proto = protoUdp → numberAt frame (ip.off + ip.len + csumAt) 2 ≠ 0) := by
  obtain ⟨header, ⟨-, -, htotal, -, -, hs, hr⟩, hlength, hread, -⟩ :=
    IpView.assemble_reads h proto hcsum hframe
  obtain ⟨-, hd, hversion⟩ := IpView.of_eq_some h
  have hzero : csumAt + [(0 : UInt8), 0].length ≤ transport.length := hcsum
  have hback := bytesAt_patch_self hzero
  have htlen := length_patch hzero
  unfold assemble at hframe
  dsimp only at hframe
  generalize patch transport csumAt [0, 0] = t at *
  have hi : csumAt + 2 ≤ t.length := by omega
  have hown := (IpView.headerFor h proto t.length).length
  generalize hp : pseudoHeader packet.data ip proto t.length = pseudo at hframe
  generalize hc : (if checksum [pseudo, t] = 0 ∧ proto = protoUdp then 0xffff
    else checksum [pseudo, t]) = c at hframe
  have hsum := checksum_patch (c := c) heven hi hback [pseudo] (by
    rw [← hc]
    split_ifs with hudp
    · exact .inr ⟨rfl, hudp.1⟩
    · exact .inl rfl)
  have hfront : (packet.data.take ip.off).length = ip.off := by
    rw [length_take]
    omega
  have hdrop : frame.drop (ip.off + ip.len) = patch t csumAt (toBeBytes 2 c) := by
    rw [hframe, ← drop_drop, drop_left' hfront, drop_left' hown]
  have hrest : frame.length - (ip.off + ip.len) = t.length := by omega
  refine ⟨?_, fun hproto => ?_⟩
  · unfold Verifies
    rw [hrest, hdrop]
    unfold pseudoHeader IpView.addrs ipEnd at *
    rcases hversion with ⟨hv4, hlen, -⟩ | ⟨hv6, hlen, -⟩
    · simp only [hv4, Bool.false_eq_true, ↓reduceIte] at htotal hs hr hp hfits ⊢
      rw [numberAt_of_bytesAt ((hread 2 2 (by omega)).trans htotal) (by omega),
        hread 12 4 (by omega), hread 16 4 (by omega), hs, hr, hp]
      refine ⟨by omega, fun _ => ?_, hsum.2⟩
      rw [hframe, bytesAt, drop_left' hfront, take_left' hown]
      exact checksum_ipHeader hv4 hlen hd proto _
    · simp only [hv6, ↓reduceIte] at htotal hs hr hp hfits ⊢
      rw [numberAt_of_bytesAt ((hread 4 2 (by omega)).trans htotal) (by omega),
        hread 8 16 (by omega), hread 24 16 (by omega), hs, hr, hp]
      exact ⟨by omega, fun hv => (by cases hv), hsum.2⟩
  · have hfield : bytesAt frame (ip.off + ip.len + csumAt) 2 = toBeBytes 2 c := by
      rw [bytesAt, ← drop_drop, hdrop]
      exact bytesAt_patch_self' (by rw [length_toBeBytes]; exact hi) (length_toBeBytes 2 c)
    rw [numberAt_of_bytesAt hfield (by omega), ← hc]
    split_ifs with hudp
    · decide
    · exact fun hz => hudp ⟨hz, hproto⟩

/-- A frame rebuilt around a payload that fits behind its headers verifies, and the checksum of a
UDP datagram in it is not the zero that means none. -/
theorem rebuilt_frames_verify (h : IpView.of packet = some ip) (payload : List UInt8) :
    ((if ip.v6 then 8 else ip.len + 8) + payload.length < 65536 →
      rebuildUdp packet payload = some frame →
        Verifies frame ip protoUdp ∧ numberAt frame (ip.off + ip.len + 6) 2 ≠ 0) ∧
    (TcpView.Fits ip payload →
      ∀ ports seq ack, Verifies (buildTcp packet ip ports seq ack payload) ip protoTcp) := by
  constructor
  · intro hfits hudp
    unfold rebuildUdp at hudp
    rw [h, bind_some] at hudp
    dsimp only at hudp
    split_ifs at hudp with hwhole hports
    have hlength := length_bytesAt (not_lt.mp hports)
    obtain ⟨hsums, hnonzero⟩ := assemble_verifies h rfl (by simp [hlength]; omega)
      (by simp [hlength]; split_ifs at * <;> omega) (some.inj hudp).symm
    exact ⟨hsums, hnonzero rfl⟩
  · intro hfits ports seq ack
    unfold TcpView.Fits at hfits
    apply (assemble_verifies h rfl _ _ rfl).1
    · rw [TcpView.length_tcpSegment]
      omega
    · rw [TcpView.length_tcpSegment]
      split_ifs at * <;> omega

/-- An IPv4 datagram without a payload. -/
def emptyDatagram : CapturedPacket :=
  ⟨0, [0x45, 0, 0, 28, 0, 0, 0x40, 0, 64, 17, 0, 0, 10, 0, 0, 1, 10, 0, 0, 2, 19, 196, 19, 196,
    0, 8, 0, 0], 28, 28, some 0, none⟩

theorem rebuilt_frames_verify_datagram : ∃ frame, rebuildUdp emptyDatagram [7, 8, 9] = some frame ∧
    Verifies frame ⟨0, 20, false, protoUdp, false⟩ protoUdp := by
  have hip : IpView.of emptyDatagram = some ⟨0, 20, false, protoUdp, false⟩ := by decide
  exact ⟨_, rfl, ((rebuilt_frames_verify hip [7, 8, 9]).1 (by decide) rfl).1⟩

end Sipnab
