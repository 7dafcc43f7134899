import Sipnab.Lib.BigEndian

/-!
# WebSocket streams

One direction of a WebSocket connection is an HTTP head and then frames. The decoder takes the
bytes in chunks, holds what is not complete yet, joins the frames of a fragmented message and skips
control frames. It drops what it holds when it refuses a frame.
-/

namespace Sipnab.WebSocket

abbrev Bytes := List UInt8

def maxFrameSize : ℕ := 65536

def maxWsMessageSize : ℕ := 65536

def maxWsHandshakeSize : ℕ := 8192

def opcodeContinuation : UInt8 := 0

def opcodeText : UInt8 := 1

def opcodeBinary : UInt8 := 2

inductive Refusal
  | headTooLong
  | payloadTooLarge (len : ℕ)
  | lengthNotMinimal (len : ℕ)
  | reservedBits
  | fragmentedControl
  | dataInsideMessage
  | noMessageOpen
  | messageTooLong
  | reservedOpcode (opcode : UInt8)
  deriving DecidableEq

/-! ## Frames -/

structure FrameHeader where
  fin : Bool
  rsv : UInt8
  opcode : UInt8
  mask : Option Bytes
  headerLen : ℕ
  payloadLen : ℕ
  deriving DecidableEq

/-- The bytes of a header, by the length its second byte gives and whether the frame is masked. -/
def headerSize (len7 : ℕ) (masked : Bool) : ℕ :=
  let base := if len7 = 126 then 4 else if len7 = 127 then 10 else 2
  if masked then base + 4 else base

def lengthEncodingIsNotMinimal (len7 declared : ℕ) : Bool :=
  if len7 = 126 then declared < 126 else if len7 = 127 then declared ≤ 65535 else false

def declaredLen (data : Bytes) (len7 : ℕ) : ℕ :=
  if len7 = 126 then ofBeBytes ((data.drop 2).take 2)
  else if len7 = 127 then ofBeBytes ((data.drop 2).take 8)
  else len7

def maskKey (data : Bytes) (headerLen : ℕ) (masked : Bool) : Option Bytes :=
  if masked then some ((data.drop (headerLen - 4)).take 4) else none

/-- The header at the front of the bytes; nothing while it is not complete. -/
def parseFrameHeader (data : Bytes) : Except Refusal (Option FrameHeader) :=
  match data with
  | byte0 :: byte1 :: _ =>
    let masked := byte1 &&& 0x80 != 0
    let len7 := (byte1 &&& 0x7F).toNat
    let headerLen := headerSize len7 masked
    if data.length < headerLen then .ok none
    else
      let payloadLen := declaredLen data len7
      if maxFrameSize < payloadLen then .error (.payloadTooLarge payloadLen)
      else if lengthEncodingIsNotMinimal len7 payloadLen then .error (.lengthNotMinimal payloadLen)
      else .ok (some
        { fin := byte0 &&& 0x80 != 0
          rsv := byte0 &&& 0x70
          opcode := byte0 &&& 0x0F
          mask := maskKey data headerLen masked
          headerLen := headerLen
          payloadLen := payloadLen })
  | _ => .ok none

/-- Each byte with the byte of the key at its place, the key over and over. -/
def unmask (payload : Bytes) : Option Bytes → Bytes
  | some key => payload.mapIdx (fun i b => b ^^^ key.getD (i % 4) 0)
  | none => payload

/-! ## The stream -/

inductive Phase
  | start
  | head
  | frames
  deriving DecidableEq

structure WsStream where
  phase : Phase
  buf : Bytes
  message : Bytes
  inMessage : Bool
  deriving DecidableEq

def WsStream.new : WsStream := ⟨.start, [], [], false⟩

/-- What a chunk yields; a refusal comes behind the messages. -/
structure WsOutput where
  messages : List Bytes
  refused : Option Refusal
  deriving DecidableEq

def WsStream.reset (ws : WsStream) : WsStream := ⟨ws.phase, [], [], false⟩

def WsStream.takeFrame (ws : WsStream) (h : FrameHeader) (payload : Bytes) :
    Except Refusal (WsStream × Option Bytes) :=
  if h.rsv ≠ 0 then .error .reservedBits
  else if 8 ≤ h.opcode ∧ h.opcode ≤ 10 then
    if h.fin then .ok (ws, none) else .error .fragmentedControl
  else if h.opcode = opcodeText ∨ h.opcode = opcodeBinary then
    if ws.inMessage then .error .dataInsideMessage
    else if h.fin then .ok (ws, some payload)
    else .ok ({ ws with message := payload, inMessage := true }, none)
  else if h.opcode = opcodeContinuation then
    if !ws.inMessage then .error .noMessageOpen
    else if maxWsMessageSize < ws.message.length + payload.length then .error .messageTooLong
    else if h.fin then
      .ok ({ ws with message := [], inMessage := false }, some (ws.message ++ payload))
    else .ok ({ ws with message := ws.message ++ payload }, none)
  else .error (.reservedOpcode h.opcode)

/-- The complete frames of the bytes held, with a bound on their number. -/
def readFrames : ℕ → WsStream → WsStream × WsOutput
  | 0, ws => (ws, ⟨[], none⟩)
  | n + 1, ws =>
    match parseFrameHeader ws.buf with
    | .error e => (ws.reset, ⟨[], some e⟩)
    | .ok none => (ws, ⟨[], none⟩)
    | .ok (some h) =>
      let frameEnd := h.headerLen + h.payloadLen
      if ws.buf.length < frameEnd then (ws, ⟨[], none⟩)
      else
        let payload := unmask ((ws.buf.drop h.headerLen).take h.payloadLen) h.mask
        match WsStream.takeFrame { ws with buf := ws.buf.drop frameEnd } h payload with
        | .error e => (WsStream.reset { ws with buf := ws.buf.drop frameEnd }, ⟨[], some e⟩)
        | .ok (ws, message) =>
          let (ws, out) := readFrames n ws
          (ws, ⟨message.toList ++ out.messages, out.refused⟩)

def getToken : Bytes := [71, 69, 84, 32]

def httpToken : Bytes := [72, 84, 84, 80, 47]

/-- Whether the bytes begin with a token, undecided while they are part of it. -/
def opens (buf token : Bytes) : Option (Option Bool) :=
  if buf.length < token.length then if buf.isPrefixOf token then some none else none
  else if token.isPrefixOf buf then some (some true) else none

def httpHeadStarts (buf : Bytes) : Option Bool :=
  match (opens buf getToken).orElse (fun _ => opens buf httpToken) with
  | some decided => decided
  | none => some false

def blankLine : Bytes := [13, 10, 13, 10]

def findBlankLine : Bytes → Option ℕ
  | [] => none
  | b :: rest =>
    if blankLine.isPrefixOf (b :: rest) then some 0 else (findBlankLine rest).map (· + 1)

def WsStream.drain (ws : WsStream) : WsStream × WsOutput := readFrames ws.buf.length ws

def WsStream.readHead (ws : WsStream) : WsStream × WsOutput :=
  match findBlankLine ws.buf with
  | some i => WsStream.drain { ws with phase := .frames, buf := ws.buf.drop (i + 4) }
  | none =>
    if maxWsHandshakeSize < ws.buf.length then
      ({ ws.reset with phase := .frames }, ⟨[], some .headTooLong⟩)
    else (ws, ⟨[], none⟩)

def WsStream.push (ws : WsStream) (chunk : Bytes) : WsStream × WsOutput :=
  let ws := { ws with buf := ws.buf ++ chunk }
  match ws.phase with
  | .start =>
    match httpHeadStarts ws.buf with
    | none => (ws, ⟨[], none⟩)
    | some true => WsStream.readHead { ws with phase := .head }
    | some false => WsStream.drain { ws with phase := .frames }
  | .head => ws.readHead
  | .frames => ws.drain

def WsStream.feed : WsStream → List Bytes → WsOutput
  | _, [] => ⟨[], none⟩
  | ws, chunk :: chunks =>
    let (ws, out) := ws.push chunk
    match out.refused with
    | some _ => out
    | none => ⟨out.messages ++ (ws.feed chunks).messages, (ws.feed chunks).refused⟩

end Sipnab.WebSocket
