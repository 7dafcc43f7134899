import Sipnab.Capture.SctpReassembler
import Sipnab.Lib.BigEndian

/-!
# Chunks of an SCTP packet

A packet is a header of twelve bytes and chunks, each padded to four bytes. Of its DATA chunks one
is looked at: the first that is a whole message, which is delivered, or when there is none the
first that is part of one, which goes to the reassembler.
-/

namespace Sipnab.Sctp

open List

/-! ## Reading -/

theorem ofBeBytes_two_lt (a b : UInt8) : ofBeBytes [a, b] < 2 ^ 16 := by
  have hlt := ofBeBytes_lt [a, b]
  have hpow : 256 ^ [a, b].length = 2 ^ 16 := by norm_num
  rw [hpow] at hlt
  exact hlt

/-- The first DATA chunk of a kind, with a bound on the number of chunks. -/
def findDataIn (srcPort dstPort : ℕ) (completeOnly : Bool) : ℕ → Bytes → Option SctpFragment
  | 0, _ => none
  | n + 1, chunks =>
    match chunks with
    | chunkType :: flags :: hi :: lo :: rest =>
      let length := ofBeBytes [hi, lo]
      if length < 4 ∨ (chunkType :: flags :: hi :: lo :: rest).length < length then none
      else
        let begins := flags &&& 0x02 != 0
        let ends := flags &&& 0x01 != 0
        if h : chunkType = 0 ∧ (begins && ends) = completeOnly ∧ 16 < length then
          some
            { srcPort := srcPort
              dstPort := dstPort
              tsn := BitVec.ofNat 32 (ofBeBytes (rest.take 4))
              sid := BitVec.ofNat 16 (ofBeBytes ((rest.drop 4).take 2))
              ssn := BitVec.ofNat 16 (ofBeBytes ((rest.drop 6).take 2))
              begins := begins
              ends := ends
              data := (rest.take (length - 4)).drop 12
              size := by
                have hlt := ofBeBytes_two_lt hi lo
                rw [length_drop, length_take]
                omega }
        else
          -- Chunks begin at multiples of four bytes.
          findDataIn srcPort dstPort completeOnly n
            ((chunkType :: flags :: hi :: lo :: rest).drop ((length + 3) / 4 * 4))
    | _ => none

def findSctpDataChunk (sctp : Bytes) (completeOnly : Bool) : Option SctpFragment :=
  if sctp.length < 12 then none
  else
    findDataIn (ofBeBytes (sctp.take 2)) (ofBeBytes ((sctp.drop 2).take 2)) completeOnly sctp.length
      (sctp.drop 12)

structure ParsedSctp where
  srcPort : ℕ
  dstPort : ℕ
  payload : Bytes
  deriving DecidableEq

def parseSctp (sctp : Bytes) : ParsedSctp :=
  match findSctpDataChunk sctp true with
  | some chunk => ⟨chunk.srcPort, chunk.dstPort, chunk.data⟩
  | none => ⟨0, 0, []⟩

def processSctp (r : SctpReassembler) (srcAddr dstAddr : IpAddr) (sctp : Bytes) :
    SctpReassembler × List ParsedSctp :=
  let parsed := parseSctp sctp
  if parsed.payload ≠ [] then (r, [parsed])
  else
    match findSctpDataChunk sctp false with
    | none => (r, [parsed])
    | some frag =>
      let (r, message) := r.insert ⟨(srcAddr, frag.srcPort), (dstAddr, frag.dstPort), frag⟩
      (r, (message.map (fun payload => ⟨frag.srcPort, frag.dstPort, payload⟩)).toList)

def processAll (r : SctpReassembler) (srcAddr dstAddr : IpAddr) :
    List Bytes → SctpReassembler × List ParsedSctp
  | [] => (r, [])
  | sctp :: packets =>
    let (r, parsed) := processSctp r srcAddr dstAddr sctp
    let (r, rest) := processAll r srcAddr dstAddr packets
    (r, parsed ++ rest)

/-! ## Packets -/

structure Chunk where
  chunkType : UInt8
  flags : UInt8
  value : Bytes
  size : value.length + 4 < 2 ^ 16
  deriving DecidableEq

namespace Chunk

def encode (c : Chunk) : Bytes :=
  c.chunkType :: c.flags :: (toBeBytes 2 (c.value.length + 4) ++ c.value)

def padding (c : Chunk) : ℕ := (c.value.length + 4 + 3) / 4 * 4 - (c.value.length + 4)

def begins (c : Chunk) : Bool := c.flags &&& 0x02 != 0

def ends (c : Chunk) : Bool := c.flags &&& 0x01 != 0

def isData (c : Chunk) : Bool := c.chunkType = 0 && 12 < c.value.length

def isComplete (c : Chunk) : Bool := c.begins && c.ends

def fragment (srcPort dstPort : ℕ) (c : Chunk) : SctpFragment where
  srcPort := srcPort
  dstPort := dstPort
  tsn := BitVec.ofNat 32 (ofBeBytes (c.value.take 4))
  sid := BitVec.ofNat 16 (ofBeBytes ((c.value.drop 4).take 2))
  ssn := BitVec.ofNat 16 (ofBeBytes ((c.value.drop 6).take 2))
  begins := c.begins
  ends := c.ends
  data := c.value.drop 12
  size := by
    have hsize := c.size
    rw [length_drop]
    by_cases hshort : c.value.length < 12 <;> omega

end Chunk

/-- Chunks one behind the other. The padding may have any bytes, and be missing behind the last. -/
inductive Encodes : List Chunk → Bytes → Prop
  | nil : Encodes [] []
  | last (c : Chunk) : Encodes [c] c.encode
  | cons (c : Chunk) {chunks : List Chunk} {pad bytes : Bytes} (hpad : pad.length = c.padding)
      (hrest : Encodes chunks bytes) : Encodes (c :: chunks) (c.encode ++ (pad ++ bytes))

variable {srcPort dstPort : ℕ} {completeOnly : Bool}

theorem Chunk.length_encode (c : Chunk) : c.encode.length = c.value.length + 4 := by
  rw [encode, length_cons, length_cons, length_append, length_toBeBytes]
  omega

theorem findDataIn_encode (c : Chunk) (n : ℕ) (rest : Bytes) :
    findDataIn srcPort dstPort completeOnly (n + 1) (c.encode ++ rest) =
      if c.isData = true ∧ c.isComplete = completeOnly then some (c.fragment srcPort dstPort)
      else findDataIn srcPort dstPort completeOnly n (rest.drop c.padding) := by
  have hlength : toBeBytes 2 (c.value.length + 4) =
      [UInt8.ofNat ((c.value.length + 4) / 256), UInt8.ofNat (c.value.length + 4)] := rfl
  have hdeclared : ofBeBytes [UInt8.ofNat ((c.value.length + 4) / 256),
      UInt8.ofNat (c.value.length + 4)] = c.value.length + 4 := by
    rw [← hlength]
    exact ofBeBytes_toBeBytes (lt_of_lt_of_eq c.size (by norm_num))
  have hbytes : c.encode ++ rest = c.chunkType :: c.flags ::
      UInt8.ofNat ((c.value.length + 4) / 256) :: UInt8.ofNat (c.value.length + 4) ::
        (c.value ++ rest) := by
    rw [Chunk.encode, hlength]
    rfl
  have hfits : ¬ (c.value.length + 4 < 4 ∨
      (c.chunkType :: c.flags :: UInt8.ofNat ((c.value.length + 4) / 256) ::
        UInt8.ofNat (c.value.length + 4) :: (c.value ++ rest)).length < c.value.length + 4) := by
    simp only [length_cons, length_append]
    omega
  have hdrop : (c.chunkType :: c.flags :: UInt8.ofNat ((c.value.length + 4) / 256) ::
      UInt8.ofNat (c.value.length + 4) :: (c.value ++ rest)).drop
        ((c.value.length + 4 + 3) / 4 * 4) = rest.drop c.padding := by
    have hpad : (c.value.length + 4 + 3) / 4 * 4 = c.encode.length + c.padding := by
      rw [c.length_encode, Chunk.padding]
      omega
    rw [← hbytes, hpad, drop_append]
    simp
  have htake : (c.value ++ rest).take (c.value.length + 4 - 4) = c.value := by
    rw [Nat.add_sub_cancel, take_left]
  rw [hbytes, findDataIn]
  simp only [hdeclared]
  rw [if_neg hfits]
  have hcond : (c.chunkType = 0 ∧
      ((c.flags &&& 0x02 != 0) && (c.flags &&& 0x01 != 0)) = completeOnly ∧
      16 < c.value.length + 4) ↔ c.isData = true ∧ c.isComplete = completeOnly := by
    have hlong : 16 < c.value.length + 4 ↔ 12 < c.value.length := by omega
    rw [Chunk.isData, Bool.and_eq_true, decide_eq_true_eq, decide_eq_true_eq, hlong]
    constructor
    · rintro ⟨htype, hkind, hlong⟩
      exact ⟨⟨htype, hlong⟩, hkind⟩
    · rintro ⟨⟨htype, hlong⟩, hkind⟩
      exact ⟨htype, hkind, hlong⟩
  by_cases hdata : c.isData = true ∧ c.isComplete = completeOnly
  · have hlong : 12 < c.value.length := by
      have hdata' := hdata.1
      rw [Chunk.isData, Bool.and_eq_true, decide_eq_true_eq, decide_eq_true_eq] at hdata'
      exact hdata'.2
    have hfield : ∀ i k, i + k ≤ 12 →
        ((c.value ++ rest).drop i).take k = (c.value.drop i).take k := by
      intro i k hle
      rw [drop_append_of_le_length (by omega),
        take_append_of_le_length (by rw [length_drop]; omega)]
    have htsn := hfield 0 4 (by omega)
    rw [drop_zero, drop_zero] at htsn
    rw [dif_pos (hcond.mpr hdata), if_pos hdata]
    simp only [Chunk.fragment, htsn, hfield 4 2 (by omega), hfield 6 2 (by omega), htake]
    rfl
  · rw [dif_neg (fun h => hdata (hcond.mp h)), if_neg hdata, hdrop]

theorem findDataIn_encodes {chunks : List Chunk} {bytes : Bytes} (h : Encodes chunks bytes)
    {n : ℕ} (hn : bytes.length ≤ n) :
    findDataIn srcPort dstPort completeOnly n bytes =
      (chunks.find? (fun c => c.isData && c.isComplete == completeOnly)).map
        (Chunk.fragment srcPort dstPort) := by
  -- The bound is enough: a chunk has bytes, and nothing is found in none.
  have hnil : ∀ n, findDataIn srcPort dstPort completeOnly n [] = none := by
    intro n
    cases n with
    | zero => rfl
    | succ n => rfl
  have hstep : ∀ {c : Chunk} {rest : Bytes} {n : ℕ}, (c.encode ++ rest).length ≤ n →
      ∃ m, n = m + 1 ∧ rest.length ≤ m := by
    intro c rest n hn
    rw [length_append, c.length_encode] at hn
    exact ⟨n - 1, by omega, by omega⟩
  induction h generalizing n with
  | nil => exact hnil n
  | last c =>
    obtain ⟨m, rfl, -⟩ := @hstep c [] n (by rw [append_nil]; exact hn)
    have hlast := @findDataIn_encode srcPort dstPort completeOnly c m []
    rw [append_nil] at hlast
    rw [hlast, List.find?_cons]
    by_cases hdata : c.isData = true ∧ c.isComplete = completeOnly
    · have hfound : (c.isData && c.isComplete == completeOnly) = true := by simpa using hdata
      rw [if_pos hdata, hfound]
      rfl
    · have hskip : (c.isData && c.isComplete == completeOnly) = false := by simpa using hdata
      rw [if_neg hdata, hskip, drop_nil, hnil]
      rfl
  | @cons c chunks pad bytes hpad hrest ih =>
    obtain ⟨m, rfl, hm⟩ := hstep hn
    rw [findDataIn_encode, List.find?_cons]
    by_cases hdata : c.isData = true ∧ c.isComplete = completeOnly
    · have hfound : (c.isData && c.isComplete == completeOnly) = true := by simpa using hdata
      rw [if_pos hdata, hfound]
      rfl
    · have hskip : (c.isData && c.isComplete == completeOnly) = false := by simpa using hdata
      rw [length_append] at hm
      rw [if_neg hdata, hskip, drop_left' hpad, ih (by omega)]

/-! ## Bundling -/

def headerPorts (header : Bytes) : ℕ × ℕ :=
  (ofBeBytes (header.take 2), ofBeBytes ((header.drop 2).take 2))

def firstComplete (chunks : List Chunk) : Option Chunk :=
  chunks.find? (fun c => c.isData && c.isComplete == true)

def firstPart (chunks : List Chunk) : Option Chunk :=
  chunks.find? (fun c => c.isData && c.isComplete == false)

theorem findSctpDataChunk_eq {header bytes : Bytes} {chunks : List Chunk}
    (hheader : header.length = 12) (h : Encodes chunks bytes) (completeOnly : Bool) :
    findSctpDataChunk (header ++ bytes) completeOnly =
      (chunks.find? (fun c => c.isData && c.isComplete == completeOnly)).map
        (Chunk.fragment (headerPorts header).1 (headerPorts header).2) := by
  have hlong : ¬ (header ++ bytes).length < 12 := by
    rw [length_append]
    omega
  have hsrc : (header ++ bytes).take 2 = header.take 2 := take_append_of_le_length (by omega)
  have hdst : ((header ++ bytes).drop 2).take 2 = (header.drop 2).take 2 := by
    rw [drop_append_of_le_length (by omega), take_append_of_le_length (by rw [length_drop]; omega)]
  rw [findSctpDataChunk, if_neg hlong, hsrc, hdst, drop_left' hheader,
    findDataIn_encodes h (by rw [length_append]; omega)]
  rfl

def Chunk.fed (srcAddr dstAddr : IpAddr) (header : Bytes) (c : Chunk) : Fed :=
  ⟨(srcAddr, (headerPorts header).1), (dstAddr, (headerPorts header).2),
    c.fragment (headerPorts header).1 (headerPorts header).2⟩

def bundleResult (r : SctpReassembler) (srcAddr dstAddr : IpAddr) (header : Bytes)
    (chunks : List Chunk) : SctpReassembler × List ParsedSctp :=
  let ports := headerPorts header
  match firstComplete chunks with
  | some c => (r, [⟨ports.1, ports.2, c.value.drop 12⟩])
  | none =>
    match firstPart chunks with
    | some c =>
      ((r.insert (c.fed srcAddr dstAddr header)).1,
        ((r.insert (c.fed srcAddr dstAddr header)).2.map
          (fun payload => ⟨ports.1, ports.2, payload⟩)).toList)
    | none => (r, [⟨0, 0, []⟩])

variable {r : SctpReassembler} {srcAddr dstAddr : IpAddr} {header bytes : Bytes}
  {chunks : List Chunk}

theorem processSctp_eq (hheader : header.length = 12) (h : Encodes chunks bytes) :
    processSctp r srcAddr dstAddr (header ++ bytes) =
      bundleResult r srcAddr dstAddr header chunks := by
  have hcomplete := findSctpDataChunk_eq hheader h true
  have hpart := findSctpDataChunk_eq hheader h false
  unfold processSctp bundleResult parseSctp firstComplete firstPart
  rw [hcomplete, hpart]
  cases hfirst : chunks.find? (fun c => c.isData && c.isComplete == true) with
  | some c =>
    have hdata : c.isData = true := by
      have hfound := List.find?_some hfirst
      rw [Bool.and_eq_true] at hfound
      exact hfound.1
    have hsome : c.value.drop 12 ≠ [] := by
      rw [Chunk.isData, Bool.and_eq_true, decide_eq_true_eq, decide_eq_true_eq] at hdata
      rw [Ne, drop_eq_nil_iff]
      omega
    dsimp only [Option.map_some, Chunk.fragment]
    rw [if_pos hsome]
  | none =>
    dsimp only [Option.map_none]
    rw [if_neg (by simp)]
    cases chunks.find? (fun c => c.isData && c.isComplete == false) with
    | some c => rfl
    | none => rfl

theorem bundleResult_filter (chunks : List Chunk) :
    bundleResult r srcAddr dstAddr header chunks =
      bundleResult r srcAddr dstAddr header (chunks.filter Chunk.isData) := by
  have hfind : ∀ b, (chunks.filter Chunk.isData).find? (fun c => c.isData && c.isComplete == b) =
      chunks.find? (fun c => c.isData && c.isComplete == b) := by
    intro b
    rw [List.find?_filter]
    congr 1
    funext c
    cases c.isData <;> cases c.isComplete <;> cases b <;> rfl
  unfold bundleResult firstComplete firstPart
  rw [hfind, hfind]

def messages (parsed : List ParsedSctp) : List ParsedSctp :=
  parsed.filter (fun p => p.payload ≠ [])

def separately (header : Bytes) (chunks : List Chunk) : List Bytes :=
  chunks.map (fun c => header ++ c.encode)

theorem processAll_separately (hheader : header.length = 12) (chunks : List Chunk) :
    (processAll r srcAddr dstAddr (separately header chunks)).1 =
        (processAll r srcAddr dstAddr (separately header (chunks.filter Chunk.isData))).1 ∧
      messages (processAll r srcAddr dstAddr (separately header chunks)).2 =
        messages (processAll r srcAddr dstAddr
          (separately header (chunks.filter Chunk.isData))).2 := by
  induction chunks generalizing r with
  | nil => exact ⟨rfl, rfl⟩
  | cons c chunks ih =>
    have hcons : ∀ (r : SctpReassembler) (c : Chunk) (chunks : List Chunk),
        processAll r srcAddr dstAddr (separately header (c :: chunks)) =
          ((processAll (bundleResult r srcAddr dstAddr header [c]).1 srcAddr dstAddr
              (separately header chunks)).1,
            (bundleResult r srcAddr dstAddr header [c]).2 ++
              (processAll (bundleResult r srcAddr dstAddr header [c]).1 srcAddr dstAddr
                (separately header chunks)).2) := by
      intro r c chunks
      rw [← processSctp_eq hheader (.last c)]
      rfl
    rw [filter_cons]
    cases hdata : c.isData with
    | true =>
      rw [if_pos rfl, hcons, hcons]
      have hrest := @ih (bundleResult r srcAddr dstAddr header [c]).1
      refine ⟨hrest.1, ?_⟩
      dsimp only
      rw [messages, filter_append, messages, filter_append]
      exact congrArg _ hrest.2
    | false =>
      have hnone : bundleResult r srcAddr dstAddr header [c] = (r, [⟨0, 0, []⟩]) := by
        rw [bundleResult_filter, filter_cons, hdata]
        rfl
      rw [if_neg Bool.false_ne_true, hcons, hnone]
      exact ih

/-- Of a packet the first DATA chunk that is a whole message is delivered, and when there is none
the first that is part of one goes to the reassembler. A packet with at most one DATA chunk is read
as its chunks are in packets of their own. -/
theorem processSctp_bundle (hheader : header.length = 12) (h : Encodes chunks bytes) :
    processSctp r srcAddr dstAddr (header ++ bytes) = bundleResult r srcAddr dstAddr header chunks ∧
      ((chunks.filter Chunk.isData).length ≤ 1 →
        (processSctp r srcAddr dstAddr (header ++ bytes)).1 =
            (processAll r srcAddr dstAddr (separately header chunks)).1 ∧
          messages (processSctp r srcAddr dstAddr (header ++ bytes)).2 =
            messages (processAll r srcAddr dstAddr (separately header chunks)).2) := by
  have hbundle : processSctp r srcAddr dstAddr (header ++ bytes) =
      bundleResult r srcAddr dstAddr header chunks := processSctp_eq hheader h
  refine ⟨hbundle, ?_⟩
  intro hone
  obtain ⟨hstate, hmessages⟩ := @processAll_separately r srcAddr dstAddr header hheader chunks
  rw [hbundle, hstate, hmessages, bundleResult_filter]
  match chunks.filter Chunk.isData, hone with
  | [], _ => exact ⟨rfl, rfl⟩
  | [c], _ =>
    have hsingle : processAll r srcAddr dstAddr (separately header [c]) =
        ((bundleResult r srcAddr dstAddr header [c]).1,
          (bundleResult r srcAddr dstAddr header [c]).2 ++ []) := by
      rw [← processSctp_eq hheader (.last c)]
      rfl
    rw [hsingle, append_nil]
    exact ⟨rfl, rfl⟩

def sipHeader : Bytes := [0x13, 0xC4, 0x13, 0xC5, 0, 0, 0, 0, 0, 0, 0, 0]

def wholeChunk (tsn b : UInt8) : Chunk :=
  ⟨0, 0x03, [0, 0, 0, tsn, 0, 0, 0, 0, 0, 0, 0, 0, b], show 17 < 2 ^ 16 by decide⟩

def sackChunk : Chunk := ⟨3, 0, [0, 0, 0, 1, 0, 0, 0, 0, 0, 0, 0, 0], by decide⟩

theorem processSctp_bundle_sack :
    messages (processSctp (SctpReassembler.withMaxStreams 4) (.v4 1) (.v4 2)
        (sipHeader ++ (sackChunk.encode ++ ([] ++ (wholeChunk 7 65).encode)))).2 =
      messages (processAll (SctpReassembler.withMaxStreams 4) (.v4 1) (.v4 2)
        (separately sipHeader [sackChunk, wholeChunk 7 65])).2 := by
  have hencodes : Encodes [sackChunk, wholeChunk 7 65]
      (sackChunk.encode ++ ([] ++ (wholeChunk 7 65).encode)) :=
    .cons sackChunk (by decide) (.last (wholeChunk 7 65))
  exact ((processSctp_bundle (by decide) hencodes).2 (by decide)).2

/-- Of two whole messages in one packet the second is lost. -/
theorem second_message_lost :
    ¬ ∀ (r : SctpReassembler) (srcAddr dstAddr : IpAddr) (header bytes : Bytes)
      (chunks : List Chunk), header.length = 12 → Encodes chunks bytes →
        messages (processSctp r srcAddr dstAddr (header ++ bytes)).2 =
          messages (processAll r srcAddr dstAddr (separately header chunks)).2 := by
  intro h
  have hencodes : Encodes [wholeChunk 7 65, wholeChunk 8 66]
      ((wholeChunk 7 65).encode ++ ([0, 0, 0] ++ (wholeChunk 8 66).encode)) :=
    .cons (wholeChunk 7 65) (by decide) (.last (wholeChunk 8 66))
  have hlost := h (SctpReassembler.withMaxStreams 4) (.v4 1) (.v4 2) sipHeader _ _ (by decide)
    hencodes
  revert hlost
  decide +kernel

end Sipnab.Sctp
