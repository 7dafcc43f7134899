import Sipnab.Capture.WebSocketChunks

/-!
# Messages of a WebSocket stream

A stream that is an HTTP head and well-formed frames is decoded to the data messages of the frames,
fragments joined and control frames skipped, however it is cut into chunks.
-/

namespace Sipnab.WebSocket

open List

/-! ## Frames as they are sent -/

structure Frame where
  fin : Bool
  opcode : UInt8
  mask : Option Bytes
  payload : Bytes
  deriving DecidableEq

namespace Frame

def len7 (f : Frame) : ℕ :=
  if f.payload.length < 126 then f.payload.length else if f.payload.length ≤ 65535 then 126 else 127

/-- The length in the bytes behind the second, in the shortest form. -/
def extendedLen (f : Frame) : Bytes :=
  if f.payload.length < 126 then []
  else if f.payload.length ≤ 65535 then toBeBytes 2 f.payload.length
  else toBeBytes 8 f.payload.length

def byte0 (f : Frame) : UInt8 := (if f.fin then 0x80 else 0) ||| f.opcode

def byte1 (f : Frame) : UInt8 := (if f.mask.isSome then 0x80 else 0) ||| UInt8.ofNat f.len7

def header (f : Frame) : Bytes := f.byte0 :: f.byte1 :: (f.extendedLen ++ f.mask.getD [])

/-- A frame on the wire; masking a payload twice gives it back. -/
def encode (f : Frame) : Bytes := f.header ++ unmask f.payload f.mask

structure WellFormed (f : Frame) : Prop where
  opcode : f.opcode ∈ [opcodeContinuation, opcodeText, opcodeBinary, 8, 9, 10]
  mask : ∀ key ∈ f.mask, key.length = 4
  size : f.payload.length ≤ maxFrameSize

def isControl (f : Frame) : Prop := f.opcode ∈ ([8, 9, 10] : List UInt8)

def isData (f : Frame) : Prop := f.opcode = opcodeText ∨ f.opcode = opcodeBinary

end Frame

/-- The data messages of frames behind a message that is open, or none. A fragmented message is
within the size limit, and the frames may end inside one. -/
inductive Messages : Option Bytes → List Frame → List Bytes → Prop
  | done (opened : Option Bytes) : Messages opened [] []
  | control {opened : Option Bytes} {f : Frame} {frames : List Frame} {messages : List Bytes}
      (hcontrol : f.isControl) (hfin : f.fin = true) (hrest : Messages opened frames messages) :
      Messages opened (f :: frames) messages
  | whole {f : Frame} {frames : List Frame} {messages : List Bytes} (hdata : f.isData)
      (hfin : f.fin = true) (hrest : Messages none frames messages) :
      Messages none (f :: frames) (f.payload :: messages)
  | first {f : Frame} {frames : List Frame} {messages : List Bytes} (hdata : f.isData)
      (hfin : f.fin = false) (hrest : Messages (some f.payload) frames messages) :
      Messages none (f :: frames) messages
  | more {begun : Bytes} {f : Frame} {frames : List Frame} {messages : List Bytes}
      (hmore : f.opcode = opcodeContinuation) (hfin : f.fin = false)
      (hsize : (begun ++ f.payload).length ≤ maxWsMessageSize)
      (hrest : Messages (some (begun ++ f.payload)) frames messages) :
      Messages (some begun) (f :: frames) messages
  | last {begun : Bytes} {f : Frame} {frames : List Frame} {messages : List Bytes}
      (hmore : f.opcode = opcodeContinuation) (hfin : f.fin = true)
      (hsize : (begun ++ f.payload).length ≤ maxWsMessageSize)
      (hrest : Messages none frames messages) :
      Messages (some begun) (f :: frames) ((begun ++ f.payload) :: messages)

/-! ## Headers -/

variable {n : ℕ} {ws : WsStream} {frames : List Frame} {messages : List Bytes} (payload : Bytes)
  (mask : Option Bytes)

@[simp] theorem length_unmask : (unmask payload mask).length = payload.length := by
  cases mask with
  | none => rfl
  | some key => rw [unmask, length_mapIdx]

theorem unmask_unmask : unmask (unmask payload mask) mask = payload := by
  cases mask with
  | none => rfl
  | some key =>
    rw [unmask, unmask, mapIdx_mapIdx]
    apply ext_getElem
    · rw [length_mapIdx]
    · intro i hi hi'
      rw [getElem_mapIdx]
      simp

namespace Frame

variable {f : Frame}

theorem byte0_bits (h : f.WellFormed) : (f.byte0 &&& 0x80 != 0) = f.fin ∧ f.byte0 &&& 0x70 = 0 ∧
    f.byte0 &&& 0x0F = f.opcode := by
  have hall : ∀ opcode ∈ [opcodeContinuation, opcodeText, opcodeBinary, 8, 9, 10],
      ∀ fin : Bool, (((if fin then 0x80 else 0) ||| opcode) &&& 0x80 != 0) = fin ∧
        ((if fin then 0x80 else 0) ||| opcode) &&& 0x70 = (0 : UInt8) ∧
        ((if fin then 0x80 else 0) ||| opcode) &&& 0x0F = opcode :=
    all_iff_forall_prop.mp (by decide)
  exact hall f.opcode h.opcode f.fin

theorem byte1_bits (f : Frame) : (f.byte1 &&& 0x80 != 0) = f.mask.isSome ∧
    (f.byte1 &&& 0x7F).toNat = f.len7 := by
  have hall : ∀ n : Fin 128, ∀ masked : Bool,
      (((if masked then 0x80 else 0) ||| UInt8.ofNat n.val) &&& 0x80 != 0) = masked ∧
        (((if masked then 0x80 else 0) ||| UInt8.ofNat n.val) &&& 0x7F).toNat = n.val := by
    decide +kernel
  have hlt : f.len7 < 128 := by
    unfold len7
    split_ifs <;> omega
  exact hall ⟨f.len7, hlt⟩ f.mask.isSome

theorem length_header (h : f.WellFormed) : f.header.length = headerSize f.len7 f.mask.isSome := by
  have hext : f.extendedLen.length + 2 = headerSize f.len7 false := by
    unfold extendedLen len7 headerSize
    split_ifs <;> simp_all
  have hmask : (f.mask.getD []).length = if f.mask.isSome then 4 else 0 := by
    cases hmask : f.mask with
    | none => rfl
    | some key => exact h.mask key hmask
  have hsize : headerSize f.len7 f.mask.isSome =
      headerSize f.len7 false + if f.mask.isSome then 4 else 0 := by
    cases f.mask.isSome <;> rfl
  rw [hsize, ← hext, ← hmask, header, length_cons, length_cons, length_append]
  omega

theorem declaredLen_header (h : f.WellFormed) (x : Bytes) :
    declaredLen (f.header ++ x) f.len7 = f.payload.length := by
  have hsize : f.payload.length ≤ 65536 := h.size
  have hdrop : (f.header ++ x).drop 2 = f.extendedLen ++ (f.mask.getD [] ++ x) := by
    simp [header]
  unfold declaredLen
  rw [hdrop]
  unfold extendedLen len7
  by_cases hsmall : f.payload.length < 126
  · rw [if_pos hsmall, if_neg (by omega), if_neg (by omega)]
  · rw [if_neg hsmall]
    by_cases hmedium : f.payload.length ≤ 65535
    · rw [if_pos hmedium, if_pos rfl, if_neg hsmall, if_pos hmedium,
        take_left' (length_toBeBytes 2 _), ofBeBytes_toBeBytes (by omega)]
    · rw [if_neg hmedium, if_neg (by decide), if_pos rfl, if_neg hsmall, if_neg hmedium,
        take_left' (length_toBeBytes 8 _), ofBeBytes_toBeBytes (by omega)]

theorem maskKey_header (h : f.WellFormed) (x : Bytes) :
    maskKey (f.header ++ x) (headerSize f.len7 f.mask.isSome) f.mask.isSome = f.mask := by
  rw [← length_header h]
  cases hmask : f.mask with
  | none => rfl
  | some key =>
    have hkey : key.length = 4 := h.mask key hmask
    have hheader : f.header = (f.byte0 :: f.byte1 :: f.extendedLen) ++ key := by
      simp [header, hmask]
    have hlength : f.header.length - 4 = (f.byte0 :: f.byte1 :: f.extendedLen).length := by
      rw [hheader, length_append]
      omega
    rw [maskKey, Option.isSome_some, if_pos rfl, hlength, hheader, append_assoc,
      drop_left, take_left' hkey]

theorem length_minimal (f : Frame) :
    lengthEncodingIsNotMinimal f.len7 f.payload.length = false := by
  unfold lengthEncodingIsNotMinimal len7
  split_ifs <;> simp_all

theorem parseFrameHeader_header (h : f.WellFormed) (x : Bytes) :
    parseFrameHeader (f.header ++ x) =
      .ok (some ⟨f.fin, 0, f.opcode, f.mask, f.header.length, f.payload.length⟩) := by
  obtain ⟨hfin, hrsv, hopcode⟩ := byte0_bits h
  obtain ⟨hmasked, hlen⟩ := f.byte1_bits
  have hdata : f.header ++ x = f.byte0 :: f.byte1 :: (f.extendedLen ++ f.mask.getD [] ++ x) := rfl
  have hlong : ¬ (f.header ++ x).length < headerSize f.len7 f.mask.isSome := by
    rw [← length_header h, length_append]
    omega
  have hdeclared := declaredLen_header h x
  have hkey := maskKey_header h x
  have hsize : ¬ maxFrameSize < f.payload.length := not_lt.mpr h.size
  rw [hdata] at hlong hdeclared hkey ⊢
  rw [parseFrameHeader, hmasked, hlen, if_neg hlong, hdeclared, if_neg hsize, f.length_minimal,
    if_neg Bool.false_ne_true, hfin, hrsv, hopcode, hkey, length_header h]

end Frame

/-! ## Streams -/

def Holds (ws : WsStream) : Option Bytes → Prop
  | some begun => ws.inMessage = true ∧ ws.message = begun
  | none => ws.inMessage = false

theorem readFrames_encode {f : Frame} (h : f.WellFormed) {rest : Bytes} {ws' : WsStream}
    {message : Option Bytes} (htake : WsStream.takeFrame { ws with buf := rest }
      ⟨f.fin, 0, f.opcode, f.mask, f.header.length, f.payload.length⟩ f.payload =
        .ok (ws', message)) : (readFrames (n + 1) { ws with buf := f.encode ++ rest }).2 =
      ⟨message.toList ++ (readFrames n ws').2.messages, (readFrames n ws').2.refused⟩ := by
  have hbuf : f.encode ++ rest = f.header ++ (unmask f.payload f.mask ++ rest) := by
    rw [Frame.encode, append_assoc]
  have hlong : ¬ (f.encode ++ rest).length < f.header.length + f.payload.length := by
    rw [hbuf, length_append, length_append, length_unmask]
    omega
  have hpayload : ((f.encode ++ rest).drop f.header.length).take f.payload.length =
      unmask f.payload f.mask := by
    rw [hbuf, drop_left, take_left' (length_unmask _ _)]
  have hrest : (f.encode ++ rest).drop (f.header.length + f.payload.length) = rest := by
    rw [Frame.encode, drop_left']
    rw [length_append, length_unmask]
  rw [readFrames]
  dsimp only
  rw [hbuf, f.parseFrameHeader_header h, ← hbuf]
  dsimp only
  rw [if_neg hlong, hpayload, unmask_unmask, hrest, htake]

namespace Frame

variable {f : Frame}

theorem not_isControl (h : f.isData ∨ f.opcode = opcodeContinuation) :
    ¬ (8 ≤ f.opcode ∧ f.opcode ≤ 10) := by
  obtain (h | h) | h := h <;> (rw [h]; decide)

theorem isControl.bounds (h : f.isControl) : 8 ≤ f.opcode ∧ f.opcode ≤ 10 := by
  have hall : ∀ opcode ∈ ([8, 9, 10] : List UInt8), 8 ≤ opcode ∧ opcode ≤ 10 :=
    all_iff_forall_prop.mp (by decide)
  exact hall f.opcode h

theorem isData.eq_or (h : f.isData) : f.opcode = opcodeText ∨ f.opcode = opcodeBinary := h

theorem not_isData (h : f.opcode = opcodeContinuation) :
    ¬ (f.opcode = opcodeText ∨ f.opcode = opcodeBinary) := by
  rw [h]
  decide

theorem two_le_length_encode (f : Frame) : 2 ≤ f.encode.length := by
  rw [encode, header, length_append, length_cons, length_cons]
  omega

end Frame

/-- A frame that leaves the stream in a state goes in front of what that state reads. -/
theorem readFrames_cons {f : Frame} (after : WsStream) (message : Option Bytes)
    (hwell : ∀ g ∈ f :: frames, g.WellFormed)
    (hn : ((f :: frames).flatMap Frame.encode).length ≤ n)
    (htake : WsStream.takeFrame { ws with buf := frames.flatMap Frame.encode }
      ⟨f.fin, 0, f.opcode, f.mask, f.header.length, f.payload.length⟩ f.payload =
        .ok ({ after with buf := frames.flatMap Frame.encode }, message))
    (hrest : ∀ m, (frames.flatMap Frame.encode).length ≤ m →
      (readFrames m { after with buf := frames.flatMap Frame.encode }).2 = ⟨messages, none⟩) :
    (readFrames n { ws with buf := (f :: frames).flatMap Frame.encode }).2 =
      ⟨message.toList ++ messages, none⟩ := by
  have htwo := f.two_le_length_encode
  rw [flatMap_cons, length_append] at hn
  cases n with
  | zero => omega
  | succ m =>
    rw [flatMap_cons, readFrames_encode (hwell f mem_cons_self) htake, hrest m (by omega)]

theorem readFrames_messages {opened : Option Bytes} (h : Messages opened frames messages)
    (hwell : ∀ f ∈ frames, f.WellFormed) (hholds : Holds ws opened)
    (hn : (frames.flatMap Frame.encode).length ≤ n) :
    (readFrames n { ws with buf := frames.flatMap Frame.encode }).2 = ⟨messages, none⟩ := by
  induction h generalizing n ws with
  | done opened =>
    cases n with
    | zero => rfl
    | succ n => rfl
  | @control opened f frames messages hcontrol hfin hrest ih =>
    have hbehind := (forall_mem_cons.mp hwell).2
    refine readFrames_cons ws none hwell hn ?_ (fun m hm => ih hbehind hholds hm)
    unfold WsStream.takeFrame
    rw [if_neg (by simp), if_pos hcontrol.bounds, if_pos hfin]
  | @whole f frames messages hdata hfin hrest ih =>
    have hbehind := (forall_mem_cons.mp hwell).2
    refine readFrames_cons ws (some f.payload) hwell hn ?_ (fun m hm => ih hbehind hholds hm)
    unfold WsStream.takeFrame
    rw [if_neg (by simp), if_neg (Frame.not_isControl (.inl hdata)), if_pos hdata.eq_or,
      if_neg (Bool.eq_false_iff.mp hholds), if_pos hfin]
  | @first f frames messages hdata hfin hrest ih =>
    have hbehind := (forall_mem_cons.mp hwell).2
    refine readFrames_cons ⟨ws.phase, ws.buf, f.payload, true⟩ none hwell hn ?_
      (fun m hm => ih hbehind ⟨rfl, rfl⟩ hm)
    unfold WsStream.takeFrame
    rw [if_neg (by simp), if_neg (Frame.not_isControl (.inl hdata)), if_pos hdata.eq_or,
      if_neg (Bool.eq_false_iff.mp hholds), if_neg (by rw [hfin]; exact Bool.false_ne_true)]
  | @more begun f frames messages hmore hfin hsize hrest ih =>
    have hbehind := (forall_mem_cons.mp hwell).2
    obtain ⟨hin, hmessage⟩ := hholds
    refine readFrames_cons ⟨ws.phase, ws.buf, begun ++ f.payload, true⟩ none hwell hn ?_
      (fun m hm => ih hbehind ⟨rfl, rfl⟩ hm)
    rw [length_append] at hsize
    unfold WsStream.takeFrame
    rw [if_neg (by simp), if_neg (Frame.not_isControl (.inr hmore)),
      if_neg (Frame.not_isData hmore), if_pos hmore, hin, if_neg (by simp), hmessage,
      if_neg (not_lt.mpr hsize), if_neg (by rw [hfin]; exact Bool.false_ne_true)]
  | @last begun f frames messages hmore hfin hsize hrest ih =>
    have hbehind := (forall_mem_cons.mp hwell).2
    obtain ⟨hin, hmessage⟩ := hholds
    refine readFrames_cons ⟨ws.phase, ws.buf, [], false⟩ (some (begun ++ f.payload)) hwell hn ?_
      (fun m hm => ih hbehind rfl hm)
    rw [length_append] at hsize
    unfold WsStream.takeFrame
    rw [if_neg (by simp), if_neg (Frame.not_isControl (.inr hmore)),
      if_neg (Frame.not_isData hmore), if_pos hmore, hin, if_neg (by simp), hmessage,
      if_neg (not_lt.mpr hsize), if_pos hfin]

/-- An HTTP head: a request or a status line and headers up to the first blank line. -/
structure IsHead (head : Bytes) : Prop where
  starts : httpHeadStarts head = some true
  ends : findBlankLine head = some (head.length - 4)

theorem feed_head_frames {head : Bytes} (hhead : IsHead head)
    (hlength : head.length ≤ maxWsHandshakeSize) (hwell : ∀ f ∈ frames, f.WellFormed)
    (hmessages : Messages none frames messages) {chunks : List Bytes}
    (hchunks : chunks.flatten = head ++ frames.flatMap Frame.encode) :
    WsStream.new.feed chunks = ⟨messages, none⟩ := by
  have hbound := findBlankLine_bound hhead.ends
  have hblank := findBlankLine_append hhead.ends (frames.flatMap Frame.encode)
  have hstarts := httpHeadStarts_append hhead.starts (frames.flatMap Frame.encode)
  have hlate : lateHead chunks.flatten = false := by
    rw [hchunks, lateHead, endsLate, hblank, Option.any_some]
    have hnot : ¬ maxWsHandshakeSize + 1 < head.length - 4 + 4 := by omega
    rw [decide_eq_false hnot, Bool.and_false]
  have hdrop : (head ++ frames.flatMap Frame.encode).drop (head.length - 4 + 4) =
      frames.flatMap Frame.encode := drop_left' (by omega)
  rw [feed_new_eq hlate, hchunks, push_new_head hstarts, WsStream.readHead, hblank]
  dsimp only
  rw [hdrop]
  have hnone : Holds ⟨.frames, [], [], false⟩ none := rfl
  exact readFrames_messages hmessages hwell hnone le_rfl

/-- A stream is decoded the same however it is cut, and to the messages of its frames, exactly when
it does not begin with an HTTP head that ends late. -/
theorem decodes_iff (s : Bytes) :
    ((∀ chunks chunks' : List Bytes, chunks.flatten = s → chunks'.flatten = s →
        WsStream.new.feed chunks = WsStream.new.feed chunks') ∧
      ∀ head frames messages, IsHead head → head.length ≤ maxWsHandshakeSize →
        s = head ++ frames.flatMap Frame.encode → (∀ f ∈ frames, f.WellFormed) →
        Messages none frames messages →
        ∀ chunks : List Bytes, chunks.flatten = s → WsStream.new.feed chunks = ⟨messages, none⟩) ↔
      lateHead s = false := by
  rw [← chunks_agree_iff s]
  constructor
  · intro h
    exact h.1
  · intro hagree
    refine ⟨hagree, ?_⟩
    intro head frames messages hhead hlength hs hwell hmessages chunks hchunks
    exact feed_head_frames hhead hlength hwell hmessages (hchunks.trans hs)

def longRequest : Bytes := getToken ++ List.replicate 8200 97 ++ blankLine

theorem findBlankLine_replicate (n : ℕ) (x : Bytes) :
    findBlankLine (List.replicate n 97 ++ x) = (findBlankLine x).map (· + n) := by
  induction n with
  | zero => simp
  | succ n ih =>
    have hblank : blankLine.isPrefixOf (97 :: (List.replicate n 97 ++ x)) = false := rfl
    rw [replicate_succ, cons_append, findBlankLine, hblank, if_neg Bool.false_ne_true,
      ih, Option.map_map]
    rfl

theorem lateHead_longRequest : lateHead longRequest = true := by
  have hstarts : httpHeadStarts longRequest = some true := by
    rw [longRequest, append_assoc]
    exact httpHeadStarts_append (by decide) _
  have hblank : findBlankLine longRequest = some 8204 := by
    have hget : ∀ x, findBlankLine (getToken ++ x) = (findBlankLine x).map (· + 4) := by
      intro x
      simp [findBlankLine, blankLine, getToken, Option.map_map, Function.comp_def]
    have hend : findBlankLine blankLine = some 0 := by decide
    rw [longRequest, append_assoc, hget, findBlankLine_replicate, hend]
    rfl
  rw [lateHead, hstarts, endsLate, hblank]
  decide

theorem longRequest_read_by_chunks :
    (WsStream.new.feed [longRequest]).refused ≠ some .headTooLong ∧
      (WsStream.new.feed [longRequest.take 8193, longRequest.drop 8193]).refused =
        some .headTooLong ∧
      ¬ ∀ s, ∀ chunks chunks' : List Bytes, chunks.flatten = s → chunks'.flatten = s →
        WsStream.new.feed chunks = WsStream.new.feed chunks' := by
  have hlate := lateHead_longRequest
  obtain ⟨hrefused, hread⟩ := feed_lateHead hlate
  refine ⟨hread, hrefused, ?_⟩
  intro hagree
  rw [(chunks_agree_iff longRequest).mp (hagree longRequest)] at hlate
  exact Bool.false_ne_true hlate

end Sipnab.WebSocket
