import Sipnab.Lib.ByteOrder
import Sipnab.Lib.Utf8

/-!
# Capture files

A reader over the bytes of a pcap or pcapng file. A pcapng file is a row of blocks; a section
header sets the byte order and empties the table of interfaces, an interface block adds to the
table, and a packet block names an entry of it.
-/

namespace Sipnab.Pcap

abbrev Bytes := List UInt8

inductive CaptureError
  | tooShort (what : String) (need got : ℕ)
  | gzipData
  | netMonFormat
  | unknownFormat (magic : ℕ)
  deriving DecidableEq

structure PcapPacket where
  timestampSecs : ℕ
  timestampUsecs : ℕ
  data : Bytes
  origLen : ℕ
  linkType : ℕ
  interface : Option (List Char)
  deriving DecidableEq

/-! ## Classic files -/

structure ClassicReader where
  data : Bytes
  offset : ℕ
  bigEndian : Bool
  nanoseconds : Bool
  linkType : ℕ
  deriving DecidableEq

namespace ClassicReader

def readU32 (r : ClassicReader) (off : ℕ) : Option ℕ :=
  (getRange r.data off 4).map (ofBytes r.bigEndian)

def nextPacket (r : ClassicReader) : Option PcapPacket × ClassicReader :=
  match r.readU32 r.offset, r.readU32 (r.offset + 4), r.readU32 (r.offset + 8),
    r.readU32 (r.offset + 12) with
  | some tsSec, some tsUsec, some inclLen, some origLen =>
    -- The header is passed even when its data is cut short.
    let start := r.offset + 16
    match getRange r.data start inclLen with
    | none => (none, { r with offset := start })
    | some data =>
      (some
        { timestampSecs := tsSec
          timestampUsecs := if r.nanoseconds then tsUsec / 1000 else tsUsec
          data := data
          origLen := origLen
          linkType := r.linkType
          interface := none },
        { r with offset := start + inclLen })
  | _, _, _, _ => (none, r)

end ClassicReader

/-! ## Blocks -/

structure NgInterface where
  linkType : ℕ
  tsresol : ℕ
  name : Option (List Char)
  deriving DecidableEq

def NgInterface.default : NgInterface := ⟨1, 1000000, none⟩

structure NgReader where
  data : Bytes
  offset : ℕ
  bigEndian : Bool
  interfaces : List NgInterface
  deriving DecidableEq

def resolution (tsresol : UInt8) : ℕ :=
  if tsresol &&& 0x80 ≠ 0 then
    let exp := (tsresol &&& 0x7f).toNat
    if exp ≤ 63 then 2 ^ exp else 2 ^ 64 - 1
  else if 10 ^ tsresol.toNat < 2 ^ 64 then 10 ^ tsresol.toNat
  else 2 ^ 64 - 1

def timestamp (tsresol ticks : ℕ) : ℕ × ℕ :=
  let resol := max tsresol 1
  (min (ticks / resol) (2 ^ 32 - 1), min (ticks % resol * 1000000) (2 ^ 64 - 1) / resol % 2 ^ 32)

inductive Stepped
  | ended
  | moved (r : NgReader)
  | yielded (packet : PcapPacket) (r : NgReader)
  deriving DecidableEq

namespace NgReader

def readU16 (r : NgReader) (off : ℕ) : Option ℕ := (getRange r.data off 2).map (ofBytes r.bigEndian)

def readU32 (r : NgReader) (off : ℕ) : Option ℕ := (getRange r.data off 4).map (ofBytes r.bigEndian)

/-- What one option says of an interface; the last that says it counts. -/
def readOption (r : NgReader) (pos optCode optLen : ℕ) (entry : NgInterface) : NgInterface :=
  let entry :=
    if optCode = 2 ∧ 1 ≤ optLen then
      match getRange r.data pos optLen with
      | some bytes => { entry with name := some (Utf8.fromUtf8Lossy bytes) }
      | none => entry
    else entry
  if optCode = 9 ∧ 1 ≤ optLen then
    match r.data[pos]? with
    | some tsresol => { entry with tsresol := resolution tsresol }
    | none => entry
  else entry

/-- Options up to an offset, with a bound on their number. -/
def parseIdbOptions (r : NgReader) (stop : ℕ) : ℕ → ℕ → NgInterface → NgInterface
  | 0, _, entry => entry
  | n + 1, pos, entry =>
    if pos + 4 ≤ stop then
      match r.readU16 pos, r.readU16 (pos + 2) with
      | some optCode, some optLen =>
        if pos + 4 + optLen ≤ stop then
          let entry := r.readOption (pos + 4) optCode optLen entry
          if optCode = 0 then entry
          else r.parseIdbOptions stop n (pos + 4 + (optLen + (4 - optLen % 4) % 4)) entry
        else entry
      | _, _ => entry
    else entry

def readInterface (r : NgReader) (blockTotalLen : ℕ) : NgInterface :=
  -- Every block takes a place in the table, also one too short for a link type.
  if 20 ≤ blockTotalLen then
    let entry :=
      match r.readU16 (r.offset + 8) with
      | some linkType => { NgInterface.default with linkType := linkType }
      | none => NgInterface.default
    r.parseIdbOptions (r.offset + (blockTotalLen - 4)) blockTotalLen (r.offset + 16) entry
  else NgInterface.default

def readPacket (r : NgReader) (blockEnd : ℕ) : Stepped :=
  match r.readU32 (r.offset + 8) with
  | none => .ended
  | some interfaceId =>
    match r.interfaces[interfaceId]? with
    | none => .moved { r with offset := blockEnd }
    | some iface =>
      match r.readU32 (r.offset + 12), r.readU32 (r.offset + 16), r.readU32 (r.offset + 20),
        r.readU32 (r.offset + 24) with
      | some tsHigh, some tsLow, some capturedLen, some origLen =>
        match getRange r.data (r.offset + 28) capturedLen with
        | none => .moved { r with offset := blockEnd }
        | some pktData =>
          let stamp := timestamp iface.tsresol (tsHigh * 2 ^ 32 + tsLow)
          .yielded
            { timestampSecs := stamp.1
              timestampUsecs := stamp.2
              data := pktData
              origLen := origLen
              linkType := iface.linkType
              interface := iface.name }
            { r with offset := blockEnd }
      | _, _, _, _ => .ended

def enterSection (r : NgReader) (blockEnd : ℕ) : NgReader :=
  { r with
    offset := blockEnd
    bigEndian :=
      match getRange r.data (r.offset + 8) 4 with
      | some bom => ofLeBytes bom = 0x4d3c2b1a
      | none => r.bigEndian
    interfaces := [] }

def step (r : NgReader) : Stepped :=
  match r.readU32 r.offset, r.readU32 (r.offset + 4) with
  | some blockType, some blockTotalLen =>
    if blockTotalLen < 12 ∨ r.data.length < r.offset + blockTotalLen then .ended
    else
      let blockEnd := r.offset + blockTotalLen
      if blockType = 0x0a0d0d0a then .moved (r.enterSection blockEnd)
      else if blockType = 1 then
        .moved
          { r with
            offset := blockEnd
            interfaces := r.interfaces ++ [r.readInterface blockTotalLen] }
      else if blockType = 6 then
        if blockTotalLen < 32 then .moved { r with offset := blockEnd } else r.readPacket blockEnd
      else .moved { r with offset := blockEnd }
  | _, _ => .ended

/-- Blocks up to the next packet, with a bound on their number. -/
def nextPacketIn : ℕ → NgReader → Option PcapPacket × NgReader
  | 0, r => (none, r)
  | n + 1, r =>
    match r.step with
    | .ended => (none, r)
    | .moved r' => nextPacketIn n r'
    | .yielded packet r' => (some packet, r')

/-- A block that is passed has bytes, so there are no more blocks than bytes. -/
def nextPacket (r : NgReader) : Option PcapPacket × NgReader := nextPacketIn (r.data.length + 1) r

end NgReader

/-! ## Files -/

inductive ReaderInner
  | classic (r : ClassicReader)
  | ng (r : NgReader)
  deriving DecidableEq

structure PcapReader where
  inner : ReaderInner
  linkType : ℕ
  deriving DecidableEq

namespace PcapReader

def isGzip (data : Bytes) : Bool := data.take 2 = [0x1f, 0x8b]

def newClassic (data : Bytes) (magic : ℕ) : Except CaptureError PcapReader :=
  if data.length < 24 then .error (.tooShort "pcap global header" 24 data.length)
  else
    let bigEndian : Bool := magic = 0xd4c3b2a1 || magic = 0x4d3cb2a1
    let nanoseconds : Bool := magic = 0xa1b23c4d || magic = 0x4d3cb2a1
    let linkType := ofBytes bigEndian ((data.drop 20).take 4)
    .ok ⟨.classic ⟨data, 24, bigEndian, nanoseconds, linkType⟩, linkType⟩

def newNg (data : Bytes) : Except CaptureError PcapReader :=
  if data.length < 28 then .error (.tooShort "pcapng section header" 28 data.length)
  else
    let bigEndian : Bool := ofLeBytes ((data.drop 8).take 4) = 0x4d3c2b1a
    let shbLen := ofBytes bigEndian ((data.drop 4).take 4)
    let start := if 0 < shbLen ∧ shbLen ≤ data.length then shbLen else 28
    .ok ⟨.ng ⟨data, start, bigEndian, []⟩, 1⟩

def new (data : Bytes) : Except CaptureError PcapReader :=
  if data.length < 12 then .error (.tooShort "capture file" 12 data.length)
  else if isGzip data then .error .gzipData
  else
    let magic := ofLeBytes (data.take 4)
    if magic ∈ [0xa1b2c3d4, 0xd4c3b2a1, 0xa1b23c4d, 0x4d3cb2a1] then newClassic data magic
    else if magic = 0x0a0d0d0a then newNg data
    else if magic = 0x55424d47 then .error .netMonFormat
    else .error (.unknownFormat magic)

def next (r : PcapReader) : Option PcapPacket × PcapReader :=
  let (packet, inner) :=
    match r.inner with
    | .classic c => (c.nextPacket.1, ReaderInner.classic c.nextPacket.2)
    | .ng g => (g.nextPacket.1, ReaderInner.ng g.nextPacket.2)
  match packet with
  | some packet => (some packet, ⟨inner, packet.linkType⟩)
  | none => (none, ⟨inner, r.linkType⟩)

/-- The packets of an iteration, with a bound on their number. -/
def collectIn : ℕ → PcapReader → List PcapPacket
  | 0, _ => []
  | n + 1, r =>
    match r.next with
    | (some packet, r') => packet :: collectIn n r'
    | (none, _) => []

end PcapReader

/-- All packets of a file. A packet has bytes in it, so there are no more packets than bytes. -/
def readFile (data : Bytes) : Except CaptureError (List PcapPacket) :=
  (PcapReader.new data).map (PcapReader.collectIn (data.length + 1))

end Sipnab.Pcap
